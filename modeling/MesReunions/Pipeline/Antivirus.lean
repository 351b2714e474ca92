import MesReunions.Pipeline.System

/-!
# The antivirus

`process_av_scan` hands a file over when `result.get("stream", ("OK", ""))[0]` is `"OK"`: a reply
without an entry for the stream counts as clean.

* `Reply.ExplicitOk`, `Reply.Named` — a verdict `OK` for the stream, and any entry for it.
* `clean_iff` — what `verdict` takes for clean.
* **`failsClosed`** — the replies on which a scan hands over without an explicit `OK`, and the
  runs in which nothing gets past the antivirus without one.
-/

namespace MesReunions.Pipeline

open TSys

/-! ## Replies -/

/-- The verdict of the reply for the scanned stream is `OK`. -/
def Reply.ExplicitOk : Reply → Prop
  | .raised => False
  | .dict entries => ∃ e, entries.lookup "stream".toList = some e ∧ e.first = .str "OK".toList

/-- A dictionary has an entry for the stream. -/
def Reply.Named : Reply → Prop
  | .raised => True
  | .dict entries => entries.lookup "stream".toList ≠ none

/-- **What counts as clean.** -/
theorem clean_iff (reply : Reply) : verdict reply = .clean ↔
    ¬ reply.Named ∨ ∃ entries e, reply = .dict entries ∧
      entries.lookup "stream".toList = some e ∧ e.first = .str "OK".toList ∧ e.second ≠ .raises := by
  cases reply with
  | raised =>
      constructor
      · intro h
        cases h
      · rintro (h | ⟨entries, e, h, -⟩)
        · exact absurd trivial h
        · cases h
  | dict entries =>
      cases hlookup : entries.lookup "stream".toList with
      | none =>
          have hclean : verdict (.dict entries) = .clean := by
            simp only [verdict, scanStatus, scanDetail, hlookup]
            decide
          exact ⟨fun _ => .inl fun hnamed => hnamed hlookup, fun _ => hclean⟩
      | some e =>
          have hverdict : verdict (.dict entries) =
              if e.first = .raises ∨ e.second = .raises then .failed
              else if e.first = .str "OK".toList then .clean else .infected := by
            simp only [verdict, scanStatus, scanDetail, hlookup, Option.getD_some]
          rw [hverdict]
          constructor
          · intro h
            split at h
            · cases h
            · rename_i hraises
              split at h
              · rename_i hok
                exact .inr ⟨entries, e, rfl, hlookup, hok, fun hsecond => hraises (.inr hsecond)⟩
              · cases h
          · rintro (h | ⟨entries', e', h, hlookup', hok, hsecond⟩)
            · exact absurd (fun hnone => by rw [hlookup] at hnone; cases hnone) h
            · cases h
              rw [hlookup] at hlookup'
              cases hlookup'
              have hraises : ¬ (e.first = .raises ∨ e.second = .raises) := by
                rw [hok]
                rintro (h | h)
                · cases h
                · exact hsecond h
              rw [if_neg hraises, if_pos hok]

/-- A named verdict that counts as clean is an explicit `OK`. -/
theorem explicitOk_of_clean {reply : Reply} (hclean : verdict reply = .clean)
    (hnamed : reply.Named) : reply.ExplicitOk := by
  rcases (clean_iff reply).mp hclean with h | ⟨entries, e, rfl, hlookup, hok, -⟩
  · exact absurd hnamed h
  · exact ⟨e, hlookup, hok⟩

/-- An explicit `OK` is named. -/
theorem named_of_explicitOk {reply : Reply} (hok : reply.ExplicitOk) : reply.Named := by
  cases reply with
  | raised => exact trivial
  | dict entries =>
      obtain ⟨e, hlookup, -⟩ := hok
      intro hnone
      rw [hlookup] at hnone
      cases hnone

/-! ## A scan -/

/-- Message `j` stands where `process_av_scan` publishes to the transcode queue. -/
def HandsOver (w : World) (j : Nat) : Prop :=
  ∃ job, w.jobs j = some job ∧ job.isAt .avScan .publishing

/-- **What a reply leads to.** -/
theorem handsOver_iff {maxRetries : Int} {w w' : World} {j : Nat} {reply : Reply} {committed : Bool}
    (hs : World.step maxRetries w (.move j (.scan (.replied reply committed))) = some w') :
    HandsOver w' j ↔ committed = true ∧ verdict reply = .clean := by
  cases effect_of_step hs with
  | moved j a job status o hj hstatus hstep =>
      cases hstep with
      | moved a o htelling hmove =>
          have hafter : ∀ m, o.job = some m → o.post = none →
              (HandsOver (w.apply j job.file o) j ↔ m.isAt .avScan .publishing) := by
            intro m hm hpost
            have hself : (w.apply j job.file o).jobs j = o.job := jobs_apply_self_of_none hpost
            constructor
            · rintro ⟨m', hm', hat⟩
              rw [hself, hm] at hm'
              cases hm'
              exact hat
            · exact fun hat => ⟨m, by rw [hself, hm], hat⟩
          cases hmove with
          | unreadable reply hverdict h =>
              rw [hafter _ rfl rfl, hverdict]
              exact ⟨fun hat => (by cases hat.2), fun hclean => (by cases hclean.2)⟩
          | clean reply hverdict h =>
              rw [hafter _ rfl rfl, hverdict]
              exact ⟨fun _ => ⟨rfl, rfl⟩, fun _ => ⟨h.1, rfl⟩⟩
          | infected reply hverdict h =>
              rw [hafter _ rfl rfl, hverdict]
              exact ⟨fun hat => (by cases hat.2), fun hclean => (by cases hclean.2)⟩
          | unrecorded reply h =>
              rw [hafter _ rfl rfl]
              exact ⟨fun hat => (by cases hat.2), fun hclean => (by cases hclean.1)⟩
          | failed _ hfails _ =>
              rw [hafter _ rfl rfl]
              refine ⟨fun hat => (by cases hat.2), fun hclean => ?_⟩
              rw [hclean.1] at hfails
              cases hfails

/-! ## Runs -/

/-- Every message past the antivirus was clean. -/
def Passed (w : World) : Prop :=
  ∀ {j job}, w.jobs j = some job → job.queue ≠ .avScan ∨ job.isAt .avScan .publishing →
    ∃ reply, (job.file, reply) ∈ w.scans ∧ verdict reply = .clean

/-- Every reply of a run is named, or raised. -/
def Named : World → Action → Prop
  | _, .move _ (.scan (.replied reply _)) => reply.Named
  | _, _ => True

structure NamedScans (w : World) : Prop where
  passed : Passed w
  named : ∀ f reply, (f, reply) ∈ w.scans → reply.Named

/-- A message that goes on was past the antivirus, or is clean now. -/
theorem passed_of_move {maxRetries : Int} {w : World} {j : Nat} {a : JobAct} {job : Job}
    {status : UploadStatus} {o : Outcome} (h : Passed w) (hj : w.jobs j = some job)
    (hstep : Stepped maxRetries (w.pulled.contains job.file) status job a o) {m : Job}
    (hm : o.job = some m ∨ o.post = some m)
    (hpast : m.queue ≠ .avScan ∨ m.isAt .avScan .publishing) :
    ∃ reply, (job.file, reply) ∈ (w.apply j job.file o).scans ∧ verdict reply = .clean := by
  have hold : job.queue ≠ .avScan ∨ job.isAt .avScan .publishing →
      ∃ reply, (job.file, reply) ∈ (w.apply j job.file o).scans ∧ verdict reply = .clean := by
    intro hbefore
    obtain ⟨reply, hmem, hclean⟩ := h hj hbefore
    exact ⟨reply, mem_scans_apply hmem, hclean⟩
  have hkeep : m.queue = job.queue → m.point ≠ .publishing →
      ∃ reply, (job.file, reply) ∈ (w.apply j job.file o).scans ∧ verdict reply = .clean := by
    intro hqueue hpoint
    rcases hpast with hpast | hpast
    · exact hold (.inl (hqueue ▸ hpast))
    · exact absurd hpast.2 hpoint
  cases hstep with
  | answered raw delivered _ =>
      rcases hm with hm | hm
      · cases hm
        exact hold hpast
      · cases hm
  | lost hpoint =>
      rcases hm with hm | hm
      · cases hm
        exact hkeep rfl (fun h => by cases h)
      · cases hm
  | moved a o htelling hmove =>
      cases hmove with
      | unpublished h => rcases hm with hm | hm <;> cases hm
      | acked h => rcases hm with hm | hm <;> cases hm
      | dropped ok hlast h => rcases hm with hm | hm <;> cases hm
      | ready h =>
          rcases hm with hm | hm
          · exact hold (.inl (by rw [h.1]; exact fun hq => by cases hq))
          · cases hm
      | clean reply hverdict h => exact ⟨reply, List.mem_cons_self, hverdict⟩
      | normalized h => exact hold (.inl (by rw [h.1]; exact fun hq => by cases hq))
      | toTranscode auto h =>
          rcases hm with hm | hm
          · cases hm
            exact hkeep rfl (fun hp => by cases hp)
          · exact hold (.inr h)
      | toFileReady auto h => exact hold (.inl (by rw [h.1]; exact fun hq => by cases hq))
      | toInternalPull auto h => exact hold (.inl (by rw [h.1]; exact fun hq => by cases hq))
      | inserted point hpoint h => exact hold (.inl (by rw [h.1]; exact fun hq => by cases hq))
      | _ =>
          rcases hm with hm | hm
          · cases hm
            exact hkeep rfl (fun hp => by cases hp)
          · cases hm

theorem namedScans_of_step {maxRetries : Int} {w w' : World} {a : Action} (h : NamedScans w)
    (hguard : Named w a) (hs : World.step maxRetries w a = some w') : NamedScans w' := by
  cases effect_of_step hs with
  | uploaded file hnew =>
      refine ⟨fun {j job} hj hpast => ?_, h.named⟩
      by_cases hnext : j = w.next
      · simp only [World.uploaded, hnext, Function.update_self] at hj
        cases hj
        rcases hpast with hpast | hpast
        · exact absurd rfl hpast
        · cases hpast.2
      · simp only [World.uploaded, Function.update_of_ne hnext] at hj
        exact h.passed hj hpast
  | moved j a job status o hj hstatus hstep =>
      obtain ⟨hjob, hpost⟩ := files_of_stepped hstep
      constructor
      · intro k m hm hpast
        rcases jobs_apply hm with ⟨-, hm⟩ | ⟨-, hm⟩ | ⟨-, hm⟩
        · rw [hjob m hm]
          exact passed_of_move h.passed hj hstep (.inl hm) hpast
        · rw [hpost m hm]
          exact passed_of_move h.passed hj hstep (.inr hm) hpast
        · obtain ⟨reply, hmem, hclean⟩ := h.passed hm hpast
          exact ⟨reply, mem_scans_apply hmem, hclean⟩
      · intro f reply hmem
        cases hreply : o.reply with
        | none =>
            simp only [World.apply, hreply] at hmem
            exact h.named f reply hmem
        | some reply' =>
            simp only [World.apply, hreply, List.mem_cons] at hmem
            rcases hmem with hmem | hmem
            · cases hmem
              cases hstep with
              | answered raw delivered _ => cases hreply
              | lost hpoint => cases hreply
              | moved a o htelling hmove =>
                  cases hmove with
                  | unreadable reply' _ _ =>
                      cases hreply
                      exact hguard
                  | clean reply' _ _ =>
                      cases hreply
                      exact hguard
                  | infected reply' _ _ =>
                      cases hreply
                      exact hguard
                  | unrecorded reply' _ =>
                      cases hreply
                      exact hguard
                  | _ => cases hreply
            · exact h.named f reply hmem

/-! ## The results -/

theorem namedScans_start : NamedScans .start where
  passed := by
    intro j job hj
    cases hj
  named := fun f reply hmem => absurd hmem List.not_mem_nil

/-- **Fails closed.** A reply is handed over with an explicit `OK` only, exactly where the reply
names the stream (or the status of a clean scan is not recorded). In a run whose replies all do,
no file gets past the antivirus without one. -/
theorem failsClosed (maxRetries : Int) :
    (∀ w j reply committed w',
      World.step maxRetries w (.move j (.scan (.replied reply committed))) = some w' →
        ((HandsOver w' j → reply.ExplicitOk) ↔ (committed = true → reply.Named))) ∧
    ∀ as w, Guarded (World.step maxRetries) Named .start as →
      run (World.step maxRetries) .start as = some w →
        ∀ j job, w.jobs j = some job → job.queue ≠ .avScan →
          ∃ reply, (job.file, reply) ∈ w.scans ∧ reply.ExplicitOk := by
  constructor
  · intro w j reply committed w' hs
    rw [handsOver_iff hs]
    constructor
    · intro hclosed hcommitted
      by_contra hnamed
      have hclean : verdict reply = .clean := (clean_iff reply).mpr (.inl hnamed)
      exact hnamed (named_of_explicitOk (hclosed ⟨hcommitted, hclean⟩))
    · rintro hnamed ⟨hcommitted, hclean⟩
      exact explicitOk_of_clean hclean (hnamed hcommitted)
  · intro as w hguard hrun j job hj hqueue
    have hstep : ∀ w a w', NamedScans w → Named w a → World.step maxRetries w a = some w' →
        NamedScans w' := fun _ _ _ h hnamed hs => namedScans_of_step h hnamed hs
    have h := inv_of_guarded _ NamedScans hstep namedScans_start hguard hrun
    obtain ⟨reply, hmem, hclean⟩ := h.passed hj (.inl hqueue)
    exact ⟨reply, hmem, explicitOk_of_clean hclean (h.named _ _ hmem)⟩

/-- The scan of an upload, up to the transcode queue. -/
def scannedUpload (reply : Reply) : List Action :=
  [.upload 0, .move 0 (.enqueue true), .move 0 .deliver, .move 0 (.begin true),
   .move 0 (.notified true), .move 0 (.scan (.replied reply true)), .move 0 (.notified true),
   .move 0 (.publish true false)]

/-- `{"stream": ("OK", None)}` -/
def okReply : Reply := .dict [("stream".toList, ⟨.str "OK".toList, .other⟩)]

theorem failsClosed_ok : ∃ w, run (World.step 5) .start (scannedUpload okReply) = some w ∧
    ∃ job, w.jobs 1 = some job ∧ job.queue = .transcode ∧
      ∃ reply, (job.file, reply) ∈ w.scans ∧ reply.ExplicitOk := by
  refine ⟨_, rfl, _, rfl, rfl, ?_⟩
  refine (failsClosed 5).2 (scannedUpload okReply) _ ?_ rfl 1 _ rfl (fun hq => by cases hq)
  have hnamed : okReply.Named := fun hnone => by cases hnone
  refine guarded_cons _ trivial rfl (guarded_cons _ trivial rfl (guarded_cons _ trivial rfl
    (guarded_cons _ trivial rfl (guarded_cons _ trivial rfl (guarded_cons _ hnamed rfl
      (guarded_cons _ trivial rfl (guarded_cons _ trivial rfl trivial)))))))

/-- **An empty reply is clean.** The file is in the transcode queue, and ClamAV has said nothing
of it. -/
theorem emptyReply_passes : ∃ w, run (World.step 5) .start (scannedUpload (.dict [])) = some w ∧
    w.scans = [(0, .dict [])] ∧ ¬ (Reply.dict []).ExplicitOk ∧
      w.jobs 1 = some (Job.fresh 0 .transcode false) := by
  refine ⟨_, rfl, rfl, ?_, rfl⟩
  rintro ⟨e, hlookup, -⟩
  cases hlookup

end MesReunions.Pipeline
