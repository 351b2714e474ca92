import MesReunions.Base.Str

/-!
# The messages of the pipeline

`clamav-scanner`, `audio-normalizer`, the mover of `dmz-to-internal-bridge` and its puller: what
each does with one message, from the queue to its acknowledgement.

* `notifyStatus` — how `/api/notify-status` records what it is told.
* `verdict` — what `process_av_scan` makes of a reply of ClamAV.
* `Job` — one message and how far its callback has come; `Job.step` — its next move.
* **`stepped_of_step`** — every move, with what it needs.

A callback writes a status with `db.commit()`, and then posts the same status to the portal. The
post is answered or lost before the callback goes on. Rows of `uploaded_files` stay.
-/

namespace MesReunions.Pipeline

/-! ## Statuses -/

inductive UploadStatus where
  | pending
  | scanning
  | scanClean
  | scanInfected
  | transcoding
  | transcoded
  | transcodeFailed
  | readyForTransfer
  | transferring
  | transferred
  | quarantined
  | error
  deriving DecidableEq

def UploadStatus.value : UploadStatus → Str
  | .pending => "pending".toList
  | .scanning => "scanning".toList
  | .scanClean => "scan_clean".toList
  | .scanInfected => "scan_infected".toList
  | .transcoding => "transcoding".toList
  | .transcoded => "transcoded".toList
  | .transcodeFailed => "transcode_failed".toList
  | .readyForTransfer => "ready_for_transfer".toList
  | .transferring => "transferring".toList
  | .transferred => "transferred".toList
  | .quarantined => "quarantined".toList
  | .error => "error".toList

def UploadStatus.all : List UploadStatus :=
  [.pending, .scanning, .scanClean, .scanInfected, .transcoding, .transcoded, .transcodeFailed,
   .readyForTransfer, .transferring, .transferred, .quarantined, .error]

/-- `UploadStatus(status_raw)`, which raises on other texts. -/
def UploadStatus.ofValue (raw : Str) : Option UploadStatus :=
  UploadStatus.all.find? fun s => s.value == raw

def failurePrefixes : List Str :=
  ["kevent_failed".toList, "kevent_auth_failed".toList, "mcr_auth_failed".toList,
   "mcr_rejected".toList, "mcr_push_failed".toList, "failed".toList]

/-- What `notify_status` leaves in the row when it is told `raw`. -/
def notifyStatus (raw : Str) (status : UploadStatus) : UploadStatus :=
  match UploadStatus.ofValue raw with
  | some s => s
  | none => if failurePrefixes.contains raw then .error else status

/-- A status of the enumeration is recorded as it is. -/
@[simp] theorem notifyStatus_value (s status : UploadStatus) : notifyStatus s.value status = s := by
  have hfind : UploadStatus.ofValue s.value = some s := by
    cases s <;> decide
  rw [notifyStatus, hfind]

/-- The statuses a file is shown with while it is being worked on. -/
def UploadStatus.inProgress : UploadStatus → Bool
  | .pending | .scanning | .transcoding | .transferring => true
  | _ => false

/-! ## Antivirus replies -/

/-- What a subscript of a Python value comes to. -/
inductive Item where
  | str (s : Str)
  | other
  | raises
  deriving DecidableEq

/-- A value of the reply, by its subscripts 0 and 1. -/
structure Entry where
  first : Item
  second : Item

/-- The client, its `ping` and its `instream` raise, or what they give is no dictionary. -/
inductive Reply where
  | raised
  | dict (entries : List (Str × Entry))

/-- `result.get("stream", ("OK", ""))[0]` -/
def scanStatus (entries : List (Str × Entry)) : Item :=
  ((entries.lookup "stream".toList).getD ⟨.str "OK".toList, .str []⟩).first

/-- `result.get("stream", ("", ""))[1]` -/
def scanDetail (entries : List (Str × Entry)) : Item :=
  ((entries.lookup "stream".toList).getD ⟨.str [], .str []⟩).second

inductive Verdict where
  | failed
  | clean
  | infected
  deriving DecidableEq

def verdict : Reply → Verdict
  | .raised => .failed
  | .dict entries =>
      if scanStatus entries = .raises ∨ scanDetail entries = .raises then .failed
      else if scanStatus entries = .str "OK".toList then .clean
      else .infected

/-! ## Messages -/

inductive Queue where
  | avScan
  | transcode
  | fileReady
  | internalPull
  deriving DecidableEq

/-- How far a message has come. -/
inductive Point where
  /-- `api_upload` has committed the row and is to publish the message. -/
  | uploaded
  | waiting
  | called
  /-- The antivirus or `ffmpeg` is at work. -/
  | working
  /-- The callback is to publish the next message. -/
  | publishing
  /-- The mover has published it, and has not recorded it. -/
  | published
  | copying
  | storing
  | inserting
  | dispatching
  /-- The callback has returned `True`. -/
  | done
  /-- It has returned `False`, or raised. -/
  | failed
  deriving DecidableEq

structure Job where
  file : Nat
  queue : Queue
  /-- `x-retry-count` -/
  retries : Nat
  point : Point
  /-- The status in a post to the portal that is not answered. -/
  telling : Option Str
  /-- Of a pull. -/
  autoTranscribe : Bool
  deriving DecidableEq

inductive Scan where
  | notDownloaded
  | replied (reply : Reply) (committed : Bool)

inductive Transcode where
  | raised
  | done (success committed : Bool)

/-- What a dispatch to the transcription goes through. -/
inductive Dispatch where
  | queued
  | processing
  | raised
  /-- An authentication or applicative error of Kevent. -/
  | refused
  | completed (partially : Bool)
  /-- A backend that tells the portal nothing. -/
  | silent

inductive JobAct where
  | enqueue (ok : Bool)
  | deliver
  | begin (ok : Bool)
  | notified (delivered : Bool)
  | scan (outcome : Scan)
  | transcode (outcome : Transcode)
  | publish (ok : Bool) (autoTranscribe : Bool)
  | started (ok : Bool)
  | look
  | copied (ok : Bool)
  | stored (ok : Bool)
  | inserted (ok : Bool)
  | dispatch (outcome : Dispatch)
  | ack
  | retry (ok : Bool)
  /-- The worker is gone, and the broker delivers the message again. -/
  | lost

/-- What a move comes to: where the message stands, `none` when it is gone, and what is written. -/
structure Outcome where
  job : Option Job
  status : Option UploadStatus := none
  post : Option Job := none
  pulled : Bool := false
  reply : Option Reply := none

namespace Job

def goTo (job : Job) (point : Point) : Outcome := { job := some { job with point := point } }

/-- `db.commit()`, then `notify_portal`. -/
def commit (job : Job) (point : Point) (status : UploadStatus) : Outcome :=
  { job := some { job with point := point, telling := some status.value }, status := some status }

/-- `notify_external_status` -/
def tell (job : Job) (point : Point) (raw : Str) : Outcome :=
  { job := some { job with point := point, telling := some raw } }

def isAt (job : Job) (queue : Queue) (point : Point) : Prop :=
  job.queue = queue ∧ job.point = point

instance (job : Job) (queue : Queue) (point : Point) : Decidable (job.isAt queue point) :=
  inferInstanceAs (Decidable (_ ∧ _))

/-- The message that the queue `queue` is given for a file. -/
def fresh (file : Nat) (queue : Queue) (autoTranscribe : Bool) : Job :=
  ⟨file, queue, 0, .waiting, none, autoTranscribe⟩

/-- `process_av_scan`, from the download on. -/
def scanned (job : Job) : Scan → Outcome
  | .notDownloaded => job.goTo .failed
  | .replied reply committed =>
      let outcome := if committed then
          match verdict reply with
          | .failed => job.commit .failed .error
          | .clean => job.commit .publishing .scanClean
          | .infected => job.commit .done .quarantined
        else job.goTo .failed
      { outcome with reply := some reply }

/-- `process_transcode`, from the download on. -/
def transcoded (job : Job) : Transcode → Outcome
  | .raised => job.goTo .failed
  | .done success committed =>
      if committed then
        if success then job.commit .publishing .transcoded
        else job.commit .done .transcodeFailed
      else job.goTo .failed

/-- The dispatch at the end of `_perform_pull`. -/
def dispatched (job : Job) : Dispatch → Outcome
  | .queued => job.tell .dispatching "kevent_queued".toList
  | .processing => job.tell .dispatching "kevent_processing".toList
  | .raised => job.goTo .failed
  | .refused => job.tell .done "kevent_failed".toList
  | .completed true => job.tell .done "kevent_partially_completed".toList
  | .completed false => job.tell .done "kevent_completed".toList
  | .silent => job.goTo .done

/-- The hand-over to the next queue. -/
def handOver (job : Job) (point : Point) (next : Queue) (autoTranscribe : Bool) : Outcome :=
  { job.goTo point with post := some (fresh job.file next autoTranscribe) }

/-- A move of a callback that waits for no answer of the portal. -/
def act (maxRetries : Int) (isPulled : Bool) (job : Job) : JobAct → Option Outcome
  | .enqueue ok =>
      if job.isAt .avScan .uploaded then some (if ok then job.goTo .waiting else { job := none })
      else none
  | .deliver => if job.point = .waiting then some (job.goTo .called) else none
  | .begin ok =>
      if job.point = .called then
        match job.queue with
        | .avScan => some (if ok then job.commit .working .scanning else job.goTo .failed)
        | .transcode => some (if ok then job.commit .working .transcoding else job.goTo .failed)
        | .fileReady =>
            some (if ok then job.commit .publishing .readyForTransfer else job.goTo .failed)
        | .internalPull => none
      else none
  | .scan outcome => if job.isAt .avScan .working then some (job.scanned outcome) else none
  | .transcode outcome =>
      if job.isAt .transcode .working then some (job.transcoded outcome) else none
  | .publish ok autoTranscribe =>
      if job.point = .publishing then
        if ok then
          match job.queue with
          | .avScan => some (job.handOver .done .transcode false)
          | .transcode => some (job.handOver .done .fileReady false)
          | .fileReady => some (job.handOver .published .internalPull autoTranscribe)
          | .internalPull => none
        else some (job.goTo .failed)
      else none
  | .started ok =>
      if job.isAt .fileReady .published then
        some (if ok then job.commit .done .transferring else job.goTo .failed)
      else none
  | .look =>
      if job.isAt .internalPull .called then
        some (if isPulled then job.tell .done UploadStatus.transferred.value
          else job.tell .copying UploadStatus.transferring.value)
      else none
  | .copied ok =>
      if job.isAt .internalPull .copying then
        some (if ok then job.tell .storing UploadStatus.transferring.value else job.goTo .failed)
      else none
  | .stored ok =>
      if job.isAt .internalPull .storing then
        some (if ok then job.tell .inserting UploadStatus.transferring.value else job.goTo .failed)
      else none
  | .inserted ok =>
      if job.isAt .internalPull .inserting then
        some (if ok then
            { job.tell (if job.autoTranscribe then .dispatching else .done)
                UploadStatus.transferred.value with pulled := true }
          else job.goTo .failed)
      else none
  | .dispatch outcome =>
      if job.isAt .internalPull .dispatching then some (job.dispatched outcome) else none
  | .ack => if job.point = .done then some { job := none } else none
  | .retry ok =>
      if job.point = .failed then
        if (job.retries : Int) ≥ maxRetries then some { job := none }
        else if ok then
          some { job := some { job with retries := job.retries + 1, point := .waiting } }
        -- the channel is gone with the publication, and the delivery comes back
        else some (job.goTo .waiting)
      else none
  | .notified _ => none
  | .lost => none

/-- The next move of a message whose file has the status `status`. -/
def step (maxRetries : Int) (isPulled : Bool) (status : UploadStatus) (job : Job) :
    JobAct → Option Outcome
  | .notified delivered =>
      match job.telling with
      | some raw => some
          { job := some { job with telling := none }
            status := if delivered then some (notifyStatus raw status) else none }
      | none => none
  | .lost =>
      if job.point = .uploaded ∨ job.point = .waiting then none
      else some { job := some { job with point := .waiting, telling := none } }
  | a => if job.telling = none then job.act maxRetries isPulled a else none

end Job

/-! ## The moves -/

/-- A callback is at work. -/
def Point.busy : Point → Bool
  | .uploaded | .waiting | .done | .failed => false
  | _ => true

/-- The callback returns `False` or raises, and has recorded nothing of it. -/
def JobAct.fails : JobAct → Bool
  | .begin ok => !ok
  | .scan .notDownloaded => true
  | .scan (.replied _ committed) => !committed
  | .transcode .raised => true
  | .transcode (.done _ committed) => !committed
  | .publish ok _ => !ok
  | .started ok => !ok
  | .copied ok => !ok
  | .stored ok => !ok
  | .inserted ok => !ok
  | .dispatch .raised => true
  | _ => false

/-- What a message whose callback waits for no answer can do. -/
inductive Move (maxRetries : Int) (isPulled : Bool) (job : Job) : JobAct → Outcome → Prop where
  | enqueued (h : job.isAt .avScan .uploaded) :
      Move maxRetries isPulled job (.enqueue true) (job.goTo .waiting)
  | unpublished (h : job.isAt .avScan .uploaded) :
      Move maxRetries isPulled job (.enqueue false) { job := none }
  | delivered (h : job.point = .waiting) : Move maxRetries isPulled job .deliver (job.goTo .called)
  | scanning (h : job.isAt .avScan .called) :
      Move maxRetries isPulled job (.begin true) (job.commit .working .scanning)
  | transcoding (h : job.isAt .transcode .called) :
      Move maxRetries isPulled job (.begin true) (job.commit .working .transcoding)
  | ready (h : job.isAt .fileReady .called) :
      Move maxRetries isPulled job (.begin true) (job.commit .publishing .readyForTransfer)
  | unreadable (reply : Reply) (hverdict : verdict reply = .failed)
      (h : job.isAt .avScan .working) :
      Move maxRetries isPulled job (.scan (.replied reply true))
        { job.commit .failed .error with reply := some reply }
  | clean (reply : Reply) (hverdict : verdict reply = .clean) (h : job.isAt .avScan .working) :
      Move maxRetries isPulled job (.scan (.replied reply true))
        { job.commit .publishing .scanClean with reply := some reply }
  | infected (reply : Reply) (hverdict : verdict reply = .infected)
      (h : job.isAt .avScan .working) :
      Move maxRetries isPulled job (.scan (.replied reply true))
        { job.commit .done .quarantined with reply := some reply }
  | normalized (h : job.isAt .transcode .working) :
      Move maxRetries isPulled job (.transcode (.done true true))
        (job.commit .publishing .transcoded)
  | unusable (h : job.isAt .transcode .working) :
      Move maxRetries isPulled job (.transcode (.done false true))
        (job.commit .done .transcodeFailed)
  | toTranscode (auto : Bool) (h : job.isAt .avScan .publishing) :
      Move maxRetries isPulled job (.publish true auto) (job.handOver .done .transcode false)
  | toFileReady (auto : Bool) (h : job.isAt .transcode .publishing) :
      Move maxRetries isPulled job (.publish true auto) (job.handOver .done .fileReady false)
  | toInternalPull (auto : Bool) (h : job.isAt .fileReady .publishing) :
      Move maxRetries isPulled job (.publish true auto) (job.handOver .published .internalPull auto)
  | transferring (h : job.isAt .fileReady .published) :
      Move maxRetries isPulled job (.started true) (job.commit .done .transferring)
  | replayed (hpulled : isPulled = true) (h : job.isAt .internalPull .called) :
      Move maxRetries isPulled job .look (job.tell .done UploadStatus.transferred.value)
  | copying (hpulled : isPulled = false) (h : job.isAt .internalPull .called) :
      Move maxRetries isPulled job .look (job.tell .copying UploadStatus.transferring.value)
  | copied (h : job.isAt .internalPull .copying) :
      Move maxRetries isPulled job (.copied true)
        (job.tell .storing UploadStatus.transferring.value)
  | stored (h : job.isAt .internalPull .storing) :
      Move maxRetries isPulled job (.stored true)
        (job.tell .inserting UploadStatus.transferring.value)
  | inserted (point : Point) (hpoint : point = if job.autoTranscribe then .dispatching else .done)
      (h : job.isAt .internalPull .inserting) :
      Move maxRetries isPulled job (.inserted true)
        { job.tell point UploadStatus.transferred.value with pulled := true }
  | progressed (outcome : Dispatch) (raw : Str)
      (hraw : raw = "kevent_queued".toList ∨ raw = "kevent_processing".toList)
      (h : job.isAt .internalPull .dispatching) :
      Move maxRetries isPulled job (.dispatch outcome) (job.tell .dispatching raw)
  | refused (h : job.isAt .internalPull .dispatching) :
      Move maxRetries isPulled job (.dispatch .refused) (job.tell .done "kevent_failed".toList)
  | completed (outcome : Dispatch) (raw : Str)
      (hraw : raw = "kevent_partially_completed".toList ∨ raw = "kevent_completed".toList)
      (h : job.isAt .internalPull .dispatching) :
      Move maxRetries isPulled job (.dispatch outcome) (job.tell .done raw)
  | silent (h : job.isAt .internalPull .dispatching) :
      Move maxRetries isPulled job (.dispatch .silent) (job.goTo .done)
  | unrecorded (reply : Reply) (h : job.isAt .avScan .working) :
      Move maxRetries isPulled job (.scan (.replied reply false))
        { job.goTo .failed with reply := some reply }
  | failed (a : JobAct) (hfails : a.fails = true) (hbusy : job.point.busy = true) :
      Move maxRetries isPulled job a (job.goTo .failed)
  | acked (h : job.point = .done) : Move maxRetries isPulled job .ack { job := none }
  | dropped (ok : Bool) (hlast : (job.retries : Int) ≥ maxRetries) (h : job.point = .failed) :
      Move maxRetries isPulled job (.retry ok) { job := none }
  | republished (hlast : ¬ (job.retries : Int) ≥ maxRetries) (h : job.point = .failed) :
      Move maxRetries isPulled job (.retry true)
        { job := some { job with retries := job.retries + 1, point := .waiting } }
  | requeued (hlast : ¬ (job.retries : Int) ≥ maxRetries) (h : job.point = .failed) :
      Move maxRetries isPulled job (.retry false) (job.goTo .waiting)

/-- **The moves of a callback.** -/
theorem move_of_act {maxRetries : Int} {isPulled : Bool} {job : Job} {a : JobAct} {o : Outcome}
    (hs : job.act maxRetries isPulled a = some o) : Move maxRetries isPulled job a o := by
  cases a with
  | enqueue ok =>
      simp only [Job.act] at hs
      split at hs
      · rename_i h
        cases ok <;> cases hs
        · exact .unpublished h
        · exact .enqueued h
      · cases hs
  | deliver =>
      simp only [Job.act] at hs
      split at hs
      · rename_i h
        cases hs
        exact .delivered h
      · cases hs
  | begin ok =>
      simp only [Job.act] at hs
      split at hs
      · rename_i h
        split at hs
        · rename_i hqueue
          cases ok <;> cases hs
          · exact .failed _ rfl (by rw [h]; rfl)
          · exact .scanning ⟨hqueue, h⟩
        · rename_i hqueue
          cases ok <;> cases hs
          · exact .failed _ rfl (by rw [h]; rfl)
          · exact .transcoding ⟨hqueue, h⟩
        · rename_i hqueue
          cases ok <;> cases hs
          · exact .failed _ rfl (by rw [h]; rfl)
          · exact .ready ⟨hqueue, h⟩
        · cases hs
      · cases hs
  | scan outcome =>
      simp only [Job.act] at hs
      split at hs
      · rename_i h
        cases hs
        cases outcome with
        | notDownloaded => exact .failed _ rfl (by rw [h.2]; rfl)
        | replied reply committed =>
            cases committed with
            | false => exact .unrecorded reply h
            | true =>
                cases hverdict : verdict reply with
                | failed =>
                    simp only [Job.scanned, if_true, hverdict]
                    exact .unreadable reply hverdict h
                | clean =>
                    simp only [Job.scanned, if_true, hverdict]
                    exact .clean reply hverdict h
                | infected =>
                    simp only [Job.scanned, if_true, hverdict]
                    exact .infected reply hverdict h
      · cases hs
  | transcode outcome =>
      simp only [Job.act] at hs
      split at hs
      · rename_i h
        cases hs
        cases outcome with
        | raised => exact .failed _ rfl (by rw [h.2]; rfl)
        | done success committed =>
            cases committed with
            | false => exact .failed _ rfl (by rw [h.2]; rfl)
            | true =>
                cases success with
                | true => exact .normalized h
                | false => exact .unusable h
      · cases hs
  | publish ok auto =>
      simp only [Job.act] at hs
      split at hs
      · rename_i h
        cases ok with
        | false =>
            cases hs
            exact .failed _ rfl (by rw [h]; rfl)
        | true =>
            simp only [if_true] at hs
            split at hs
            · rename_i hqueue
              cases hs
              exact .toTranscode auto ⟨hqueue, h⟩
            · rename_i hqueue
              cases hs
              exact .toFileReady auto ⟨hqueue, h⟩
            · rename_i hqueue
              cases hs
              exact .toInternalPull auto ⟨hqueue, h⟩
            · cases hs
      · cases hs
  | started ok =>
      simp only [Job.act] at hs
      split at hs
      · rename_i h
        cases ok <;> cases hs
        · exact .failed _ rfl (by rw [h.2]; rfl)
        · exact .transferring h
      · cases hs
  | look =>
      simp only [Job.act] at hs
      split at hs
      · rename_i h
        cases hpulled : isPulled <;> rw [hpulled] at hs <;> cases hs
        · exact .copying rfl h
        · exact .replayed rfl h
      · cases hs
  | copied ok =>
      simp only [Job.act] at hs
      split at hs
      · rename_i h
        cases ok <;> cases hs
        · exact .failed _ rfl (by rw [h.2]; rfl)
        · exact .copied h
      · cases hs
  | stored ok =>
      simp only [Job.act] at hs
      split at hs
      · rename_i h
        cases ok <;> cases hs
        · exact .failed _ rfl (by rw [h.2]; rfl)
        · exact .stored h
      · cases hs
  | inserted ok =>
      simp only [Job.act] at hs
      split at hs
      · rename_i h
        cases ok <;> cases hs
        · exact .failed _ rfl (by rw [h.2]; rfl)
        · exact .inserted _ rfl h
      · cases hs
  | dispatch outcome =>
      simp only [Job.act] at hs
      split at hs
      · rename_i h
        cases hs
        cases outcome with
        | queued => exact .progressed _ _ (.inl rfl) h
        | processing => exact .progressed _ _ (.inr rfl) h
        | raised => exact .failed _ rfl (by rw [h.2]; rfl)
        | refused => exact .refused h
        | completed partially =>
            cases partially with
            | true => exact .completed _ _ (.inl rfl) h
            | false => exact .completed _ _ (.inr rfl) h
        | silent => exact .silent h
      · cases hs
  | ack =>
      simp only [Job.act] at hs
      split at hs
      · rename_i h
        cases hs
        exact .acked h
      · cases hs
  | retry ok =>
      simp only [Job.act] at hs
      split at hs
      · rename_i h
        split at hs
        · rename_i hlast
          cases hs
          exact .dropped ok hlast h
        · rename_i hlast
          cases ok <;> cases hs
          · exact .requeued hlast h
          · exact .republished hlast h
      · cases hs
  | notified delivered => cases hs
  | lost => cases hs

/-- How a step of a message comes about. -/
inductive Stepped (maxRetries : Int) (isPulled : Bool) (status : UploadStatus) (job : Job) :
    JobAct → Outcome → Prop where
  | answered (raw : Str) (delivered : Bool) (htelling : job.telling = some raw) :
      Stepped maxRetries isPulled status job (.notified delivered)
        { job := some { job with telling := none }
          status := if delivered then some (notifyStatus raw status) else none }
  | lost (hpoint : job.point ≠ .uploaded ∧ job.point ≠ .waiting) :
      Stepped maxRetries isPulled status job .lost
        { job := some { job with point := .waiting, telling := none } }
  | moved (a : JobAct) (o : Outcome) (htelling : job.telling = none)
      (hmove : Move maxRetries isPulled job a o) : Stepped maxRetries isPulled status job a o

/-- **Every step is one of these.** -/
theorem stepped_of_step {maxRetries : Int} {isPulled : Bool} {status : UploadStatus} {job : Job}
    {a : JobAct} {o : Outcome} (hs : job.step maxRetries isPulled status a = some o) :
    Stepped maxRetries isPulled status job a o := by
  cases a with
  | notified delivered =>
      simp only [Job.step] at hs
      split at hs
      · rename_i raw htelling
        cases hs
        exact .answered raw delivered htelling
      · cases hs
  | lost =>
      simp only [Job.step] at hs
      split at hs
      · cases hs
      · rename_i hpoint
        cases hs
        exact .lost (not_or.mp hpoint)
  | _ =>
      simp only [Job.step] at hs
      split at hs
      · rename_i htelling
        exact .moved _ _ htelling (move_of_act hs)
      · cases hs

end MesReunions.Pipeline
