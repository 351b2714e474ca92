import MesReunions.Base.TSys
import MesReunions.Meetings.Linked

/-!
# The endpoints and the two sides of the link

* `Action.Allowed` — what an endpoint needs of the rows; most of them need nothing.
* **`links_agree`** — the two sides agree all along a run of allowed actions.
* **`pulled_apart`** — a pull without a matching preparation writes one side only.
-/

namespace MesReunions.Meetings

open TSys

universe u

variable {υ : Type u}

variable [DecidableEq υ]

/-- What an endpoint needs of the rows. -/
def Action.Allowed (db : Db υ) : Action υ → Prop
  | .performPull _ link => link.isSome = true
  | .createMeeting user audio prep _ job =>
      ∀ j ∈ audio, (db.audio? user j).isSome = true → db.prepared user prep = true →
        jobTaken db user job = false → Free db j none
  | .linkMeetingToAudio user i audio =>
      (db.liveMeeting? user i).isSome = true → ∀ j ∈ audio, (db.audio? user j).isSome = true →
        Free db j (some i)
  | .restoreMeeting user i => ∀ m ∈ db.meeting? user i, m.trashed = true → Mutual db i m
  | .materialize user _ meeting _ none =>
      ∀ i ∈ meeting, ∀ m ∈ db.meetings i, m.userSub = user ∧
        (m.trashed = false → m.userAudioFileId = none)
  | .materialize user _ meeting _ (some j) =>
      ∀ i ∈ meeting, ∀ m ∈ db.meetings i, ∀ a ∈ db.audios j,
        m.userAudioFileId ≠ none ∧ a.meetingId ≠ none ∨
          m.userSub = user ∧ (m.trashed = false → m.userAudioFileId = none ∧ a.meetingId = none)
  | .materializeAudio user _ meeting _ none =>
      ∀ i ∈ meeting, ∀ m ∈ db.meetings i,
        m.userAudioFileId ≠ none ∨ m.userSub = user ∧ m.trashed = true
  | _ => True

instance (db : Db υ) (a : Action υ) : Decidable (a.Allowed db) := by
  cases a with
  | materialize user source meeting job existing =>
      cases existing <;> (unfold Action.Allowed; infer_instance)
  | materializeAudio user source meeting job existing =>
      cases existing <;> (unfold Action.Allowed; infer_instance)
  | _ => unfold Action.Allowed; infer_instance

/-! ## The endpoints -/

section Endpoints

variable {db : Db υ} {user : υ} {i j : Nat}

theorem meeting?_eq {m : Meeting υ} :
    db.meeting? user i = some m ↔ db.meetings i = some m ∧ m.userSub = user := by
  simp only [Db.meeting?, Option.filter_eq_some_iff, decide_eq_true_eq]

theorem liveMeeting?_eq {m : Meeting υ} : db.liveMeeting? user i = some m ↔
    db.meetings i = some m ∧ m.userSub = user ∧ m.trashed = false := by
  simp only [Db.liveMeeting?, Option.filter_eq_some_iff, decide_eq_true_eq]

theorem audio?_eq {a : UserAudioFile υ} :
    db.audio? user j = some a ↔ db.audios j = some a ∧ a.userSub = user := by
  simp only [Db.audio?, Option.filter_eq_some_iff, decide_eq_true_eq]

theorem linked_createMeeting (h : Linked db) {audio prep : Option Nat} {source job : Option Int}
    (hallowed : (Action.createMeeting user audio prep source job).Allowed db) :
    Linked (createMeeting db user audio prep source job) := by
  simp only [createMeeting]
  split
  · exact h
  rename_i howned
  split
  · exact h
  rename_i hprepared
  split
  · exact h
  rename_i hjob
  cases audio with
  | none => exact h.addMeeting rfl
  | some j =>
      obtain ⟨a, ha⟩ : ∃ a, db.audio? user j = some a := by
        cases ha : db.audio? user j with
        | none => simp [ha] at howned
        | some a => exact ⟨a, rfl⟩
      have hfree : Free db j none := by
        refine hallowed j rfl (by rw [ha]; rfl) ?_ ?_
        · exact (Bool.not_eq_false _).mp hprepared
        · exact (Bool.not_eq_true _).mp hjob
      have hfound : (db.addMeeting ⟨user, some j, prep, source, job, false⟩).audio? user j =
          some a := ha
      simp only [Db.setMeetingId, hfound]
      obtain ⟨hrow, rfl⟩ := audio?_eq.mp ha
      exact h.hookNew hrow rfl rfl rfl rfl rfl hfree

theorem linked_linkVideoToMeeting (h : Linked db) {source : Int} {job : Option Int} :
    Linked (linkVideoToMeeting db user i source job) := by
  simp only [linkVideoToMeeting]
  split
  · exact h
  · rename_i m hm
    exact h.writeMeeting (liveMeeting?_eq.mp hm).1 rfl rfl id

theorem linked_linkMeetingToPreparation (h : Linked db) {prep : Option Nat} :
    Linked (linkMeetingToPreparation db user i prep) := by
  simp only [linkMeetingToPreparation]
  split
  · exact h
  · rename_i m hm
    split
    · exact h.writeMeeting (liveMeeting?_eq.mp hm).1 rfl rfl id
    · exact h

/-- The first half of `link_meeting_to_audio`. -/
theorem linked_unhook (h : Linked db) {m : Meeting υ} (hm : db.liveMeeting? user i = some m) :
    Linked ((unhook db user i m.userAudioFileId).writeMeeting i
      { m with userAudioFileId := none }) := by
  obtain ⟨hrow, rfl, hlive⟩ := liveMeeting?_eq.mp hm
  cases hj : m.userAudioFileId with
  | none => exact h.writeMeeting hrow rfl hj.symm id
  | some prev =>
      obtain ⟨a, ha, ham⟩ := h.audio hrow hj
      have hback := h.points_back hrow hlive hj ha
      simp only [unhook, audio?_eq.mpr ⟨ha, ham⟩, hback, if_true]
      exact h.unhook hrow ha hlive hj

theorem meetings_unhook (prev : Option Nat) :
    (unhook db user i prev).meetings = db.meetings := by
  cases prev with
  | none => rfl
  | some prev =>
      simp only [unhook]
      split
      · rfl
      · split <;> rfl

theorem audio?_unhook {prev : Option Nat} {a : UserAudioFile υ} (ha : db.audio? user j = some a) :
    ∃ a', (unhook db user i prev).audio? user j = some a' := by
  cases prev with
  | none => exact ⟨a, ha⟩
  | some prev =>
      simp only [unhook]
      split
      · exact ⟨a, ha⟩
      · rename_i b hb
        split
        · by_cases hj : j = prev
          · rw [hj]
            exact ⟨_, audio?_eq.mpr ⟨Function.update_self .., (audio?_eq.mp hb).2⟩⟩
          · refine ⟨a, audio?_eq.mpr ⟨?_, (audio?_eq.mp ha).2⟩⟩
            exact (Function.update_of_ne hj ..).trans (audio?_eq.mp ha).1
        · exact ⟨a, ha⟩

theorem linked_linkMeetingToAudio (h : Linked db) {audio : Option Nat}
    (hallowed : (Action.linkMeetingToAudio user i audio).Allowed db) :
    Linked (linkMeetingToAudio db user i audio) := by
  simp only [linkMeetingToAudio]
  split
  · exact h
  rename_i m hm
  split
  · exact h
  rename_i howned
  have hun := linked_unhook h hm
  cases audio with
  | none => exact hun
  | some j =>
      obtain ⟨a, ha⟩ : ∃ a, db.audio? user j = some a := by
        cases ha : db.audio? user j with
        | none => simp [ha] at howned
        | some a => exact ⟨a, rfl⟩
      have hfree : Free db j (some i) := hallowed (by rw [hm]; rfl) j rfl (by rw [ha]; rfl)
      obtain ⟨a', ha'⟩ : ∃ a', (unhook db user i m.userAudioFileId).audio? user j = some a' :=
        audio?_unhook ha
      obtain ⟨-, huser, hlive⟩ := liveMeeting?_eq.mp hm
      -- The meeting is without an audio file for a moment.
      generalize hdb : unhook db user i m.userAudioFileId = db' at hun ha'
      have hmeetings : db'.meetings = db.meetings := hdb ▸ meetings_unhook _
      have hfound : (db'.writeMeeting i { m with userAudioFileId := some j }).audio? user j =
          some a' := ha'
      simp only [Db.setMeetingId, hfound]
      have hagain : db'.writeMeeting i { m with userAudioFileId := some j } =
          (db'.writeMeeting i { m with userAudioFileId := none }).writeMeeting i
            { m with userAudioFileId := some j } := by
        simp only [Db.writeMeeting, Function.update_idem]
      rw [hagain]
      have hi : (db'.writeMeeting i { m with userAudioFileId := none }).meetings i =
          some { m with userAudioFileId := none } := Function.update_self ..
      obtain ⟨ha', huser'⟩ := audio?_eq.mp ha'
      refine hun.hook hi ha' rfl rfl (huser.trans huser'.symm) rfl rfl ?_ ?_
      · intro k n hk hn hn'
        rcases meetings_writeMeeting hn with ⟨rfl, -⟩ | ⟨-, hn⟩
        · exact absurd rfl hk
        · rw [hmeetings] at hn
          exact h.free hfree (fun hki => hk (Option.some.inj hki)) hn hn'
      · intro l b hb hbi
        exact absurd hbi (hun.alone hi hlive rfl l b hb)

theorem linked_linkAudioToPreparation (h : Linked db) {prep : Option Nat} :
    Linked (linkAudioToPreparation db user j prep) := by
  simp only [linkAudioToPreparation]
  split
  · exact h
  rename_i a ha
  obtain ⟨hrow, rfl⟩ := audio?_eq.mp ha
  split
  · exact h
  split
  · rename_i hnone
    -- An audio file without a meeting is no live meeting's.
    refine h.hookNew hrow rfl rfl rfl rfl rfl fun k _ _ n hn hn' hj => ?_
    have hk := h.points_back hn hn' hj hrow
    rw [hnone] at hk
    cases hk
  · rename_i k hk
    obtain ⟨n, hn, hna⟩ := h.meeting hrow hk
    simp only [meeting?_eq.mpr ⟨hn, hna⟩]
    exact h.writeMeeting hn rfl rfl id

theorem linked_trashMeeting (h : Linked db) : Linked (trashMeeting db user i) := by
  simp only [trashMeeting]
  split
  · rename_i m hm
    exact h.writeMeeting (liveMeeting?_eq.mp hm).1 rfl rfl fun htrashed => by cases htrashed
  · exact h

theorem linked_restoreMeeting (h : Linked db)
    (hallowed : (Action.restoreMeeting user i).Allowed db) :
    Linked (restoreMeeting db user i) := by
  simp only [restoreMeeting]
  split
  · rename_i m hm
    split
    · rename_i htrashed
      exact h.restore (meeting?_eq.mp hm).1 (hallowed m hm htrashed)
    · exact h
  · exact h

theorem linked_hardDeleteMeeting (h : Linked db) : Linked (hardDeleteMeeting db user i) := by
  simp only [hardDeleteMeeting]
  split
  · split
    · exact h.deleteMeeting
    · exact h
  · exact h

theorem linked_performPull (h : Linked db) {link : Option Nat}
    (hallowed : (Action.performPull user link).Allowed db) :
    Linked (performPull db user link) := by
  cases link with
  | none => cases hallowed
  | some p =>
      have hadded : Linked (db.addAudio ⟨user, none, none⟩) := h.addAudio rfl
      simp only [performPull]
      have hagain := addMeeting_again (db.addAudio ⟨user, none, none⟩)
        ⟨user, some db.nextAudio, none, none, none, false⟩
        ⟨user, some db.nextAudio, some p, none, none, false⟩
      rw [show (db.addAudio ⟨user, none, none⟩).nextMeeting = db.nextMeeting from rfl] at hagain
      rw [hagain]
      refine hadded.hookNew (Function.update_self ..) rfl rfl rfl rfl rfl ?_
      intro k _ _ n hn _ hj
      obtain ⟨b, hb, -⟩ := h.audio hn hj
      rw [h.audios_next] at hb
      cases hb

/-- An audio file of the user that comes from the source of the request. -/
theorem audio_of_answersSource {source : Option Int}
    (h : answersSource db user source (some j) = true) :
    ∃ a, db.audios j = some a ∧ a.userSub = user := by
  simp only [answersSource, Option.any_eq_true] at h
  obtain ⟨s, -, hs⟩ := h
  simp only [fromSource, Option.any_eq_true] at hs
  obtain ⟨a, ha, -⟩ := hs
  exact ⟨a, audio?_eq.mp ha⟩

omit [DecidableEq υ] in
/-- A pointer that is set already is not written. -/
theorem writeAudio_kept {d : Db υ} {a : UserAudioFile υ} (ha : d.audios j = some a)
    (hset : a.meetingId ≠ none) :
    d.writeAudio j { a with meetingId := a.meetingId.or (some i) } = d := by
  have hsame : ({ a with meetingId := a.meetingId.or (some i) } : UserAudioFile υ) = a := by
    obtain ⟨user, meetingId, source⟩ := a
    cases meetingId with
    | none => exact absurd rfl hset
    | some k => rfl
  rw [hsame]
  simp only [Db.writeAudio, ← ha, Function.update_eq_self]

omit [DecidableEq υ] in
theorem attach_taken {m : Meeting υ} {source job : Option Int} (htaken : m.userAudioFileId ≠ none) :
    (m.attach j source job).userAudioFileId = m.userAudioFileId := by
  cases hm : m.userAudioFileId with
  | none => exact absurd hm htaken
  | some l => simp [Meeting.attach, hm]

omit [DecidableEq υ] in
theorem attach_free {m : Meeting υ} {source job : Option Int} (hfree : m.userAudioFileId = none) :
    (m.attach j source job).userAudioFileId = some j := by
  simp [Meeting.attach, hfree]

omit [DecidableEq υ] in
/-- A meeting in the trash gets an audio file of its user, if it had none. -/
theorem Linked.attachTrashed (h : Linked db) {m : Meeting υ} {a : UserAudioFile υ}
    {source job : Option Int} (hm : db.meetings i = some m) (ha : db.audios j = some a)
    (huser : a.userSub = m.userSub) (htrashed : m.trashed = true) :
    Linked (db.writeMeeting i (m.attach j source job)) := by
  refine h.writeTrashed hm rfl htrashed fun l hl => ?_
  cases hfree : m.userAudioFileId with
  | none =>
      rw [attach_free hfree] at hl
      cases hl
      exact ⟨a, ha, huser⟩
  | some l' =>
      rw [attach_taken (by rw [hfree]; simp)] at hl
      exact h.audio hm hl

omit [DecidableEq υ] in
theorem linked_relink (h : Linked db) {source job : Option Int} {a : UserAudioFile υ}
    (ha : db.audios j = some a) (huser : a.userSub = user)
    (hallowed : ∀ m ∈ db.meetings i, m.userAudioFileId ≠ none ∧ a.meetingId ≠ none ∨
      m.userSub = user ∧ (m.trashed = false → m.userAudioFileId = none ∧ a.meetingId = none)) :
    Linked (relink db i j source job) := by
  simp only [relink]
  split
  · rename_i m b hm hb
    rw [ha] at hb
    cases hb
    rcases hallowed m hm with ⟨htaken, hset⟩ | ⟨hmu, hboth⟩
    · rw [writeAudio_kept (d := db.writeMeeting ..) ha hset]
      exact h.writeMeeting hm rfl (attach_taken htaken) id
    · cases htrashed : m.trashed with
      | false =>
          obtain ⟨hfree, hunset⟩ := hboth htrashed
          refine h.hook hm ha rfl rfl (hmu.trans huser.symm) (attach_free hfree)
            (by simp [hunset]) ?_ ?_
          · intro k n _ hn hlive hj
            have hk := h.points_back hn hlive hj ha
            rw [hunset] at hk
            cases hk
          · intro l b hb hbi
            exact absurd hbi (h.alone hm htrashed hfree l b hb)
      | true =>
          have hattached : Linked (db.writeMeeting i (m.attach j source job)) :=
            h.attachTrashed hm ha (huser.trans hmu.symm) htrashed
          cases hunset : a.meetingId with
          | none =>
              refine hattached.pointTrashed ha (Function.update_self ..) rfl ?_ htrashed hunset ?_
              · exact hmu.trans huser.symm
              · rfl
          | some k =>
              rw [← hunset, writeAudio_kept (d := db.writeMeeting ..) ha (by rw [hunset]; simp)]
              exact hattached
  · exact h

theorem linked_materialize (h : Linked db) {source job : Option Int}
    {meeting existing : Option Nat} (hanswer : answersSource db user source existing = true)
    (hallowed : (Action.materialize user source meeting job existing).Allowed db) :
    Linked (materialize db user source meeting job existing) := by
  cases existing with
  | some j =>
      cases meeting with
      | none => exact h
      | some i =>
          obtain ⟨a, ha, huser⟩ := audio_of_answersSource hanswer
          exact linked_relink h ha huser fun m hm => hallowed i rfl m hm a ha
  | none =>
      cases meeting with
      | none => exact h.addAudio rfl
      | some i =>
          simp only [materialize]
          split
          · exact h
          · rename_i m hm
            obtain ⟨hmu, hfree⟩ := hallowed i rfl m hm
            -- The row is created without a meeting and then pointed to `i`.
            have hadded : Linked (db.addAudio ⟨user, none, source⟩) := h.addAudio rfl
            have hnew : (db.addAudio ⟨user, none, source⟩).audios db.nextAudio =
                some ⟨user, none, source⟩ := Function.update_self ..
            have hagain : (db.addAudio ⟨user, some i, source⟩).writeMeeting i
                  (m.attach db.nextAudio source job) =
                ((db.addAudio ⟨user, none, source⟩).writeMeeting i
                  (m.attach db.nextAudio source job)).writeAudio db.nextAudio
                  ⟨user, some i, source⟩ := by
              simp only [Db.addAudio, Db.writeAudio, Db.writeMeeting, Function.update_idem]
            rw [hagain]
            cases htrashed : m.trashed with
            | false =>
                refine hadded.hook hm hnew rfl rfl hmu (attach_free (hfree htrashed)) rfl ?_ ?_
                · intro k n _ hn _ hj
                  obtain ⟨b, hb, -⟩ := h.audio hn hj
                  rw [h.audios_next] at hb
                  cases hb
                · intro l b hb hbi
                  exact absurd hbi (hadded.alone hm htrashed (hfree htrashed) l b hb)
            | true =>
                have hattached : Linked ((db.addAudio ⟨user, none, source⟩).writeMeeting i
                    (m.attach db.nextAudio source job)) :=
                  hadded.attachTrashed hm hnew hmu.symm htrashed
                exact hattached.pointTrashed hnew (Function.update_self ..) rfl hmu htrashed rfl rfl

theorem linked_materializeAudio (h : Linked db) {source job : Option Int}
    {meeting existing : Option Nat}
    (hallowed : (Action.materializeAudio user source meeting job existing).Allowed db) :
    Linked (materializeAudio db user source meeting job existing) := by
  cases existing with
  | some j => exact h
  | none =>
      cases meeting with
      | none => exact h.addAudio rfl
      | some i =>
          have hadded : Linked (db.addAudio ⟨user, none, source⟩) := h.addAudio rfl
          simp only [materializeAudio]
          split
          · exact hadded
          · rename_i m hm
            rcases hallowed i rfl m hm with htaken | ⟨hmu, htrashed⟩
            · exact hadded.writeMeeting hm rfl (attach_taken htaken) id
            · exact hadded.attachTrashed hm (Function.update_self ..) hmu.symm htrashed

end Endpoints

/-! ## Runs -/

theorem linked_step {db db' : Db υ} {a : Action υ} (h : Linked db) (hallowed : a.Allowed db)
    (hs : step db a = some db') : Linked db' := by
  cases a with
  | createMeeting user audio prep source job =>
      cases hs
      exact linked_createMeeting h hallowed
  | linkVideoToMeeting user i source job =>
      cases hs
      exact linked_linkVideoToMeeting h
  | linkMeetingToPreparation user i prep =>
      cases hs
      exact linked_linkMeetingToPreparation h
  | linkMeetingToAudio user i audio =>
      cases hs
      exact linked_linkMeetingToAudio h hallowed
  | linkAudioToPreparation user j prep =>
      cases hs
      exact linked_linkAudioToPreparation h
  | trashMeeting user i =>
      cases hs
      exact linked_trashMeeting h
  | restoreMeeting user i =>
      cases hs
      exact linked_restoreMeeting h hallowed
  | hardDeleteMeeting user i =>
      cases hs
      exact linked_hardDeleteMeeting h
  | performPull user link =>
      simp only [step] at hs
      split at hs
      · cases hs
        exact linked_performPull h hallowed
      · cases hs
  | mcrImport user =>
      cases hs
      exact h.addAudio rfl
  | materialize user source meeting job existing =>
      simp only [step] at hs
      split at hs
      · rename_i hanswer
        cases hs
        exact linked_materialize h hanswer hallowed
      · cases hs
  | materializeAudio user source meeting job existing =>
      simp only [step] at hs
      split at hs
      · cases hs
        exact linked_materializeAudio h hallowed
      · cases hs
  | purgeAudio j =>
      cases hs
      exact h.deleteAudio
  | preparation p owner =>
      cases hs
      exact h.congr rfl rfl rfl rfl
  | deletePreparation p =>
      cases hs
      exact h.congr rfl rfl rfl (links_deletePreparation _ _)

/-- **The two sides of the link agree** in every state of a run whose steps are all allowed. -/
theorem links_agree {db : Db υ} {as : List (Action υ)}
    (hallowed : Guarded step (fun db a => a.Allowed db) Db.start as)
    (hrun : run step Db.start as = some db) : LinksAgree db := by
  have h : Linked db := inv_of_guarded step Linked
    (fun _ _ _ h hallowed hs => linked_step h hallowed hs) linked_start hallowed hrun
  exact h.linksAgree

/-- A meeting is made by hand and linked to an imported recording, another recording is pulled
with its preparation, and the first meeting goes to the trash. -/
def linkedRun : List (Action Bool) :=
  [.mcrImport true, .createMeeting true none none none none, .linkMeetingToAudio true 0 (some 0),
    .preparation 4 (some true), .performPull true (some 4), .trashMeeting true 0,
    .createMeeting true (some 0) (some 4) none (some 7)]

theorem links_agree_in_use : ∃ db, run step Db.start linkedRun = some db ∧ LinksAgree db := by
  have hrun : ∃ db, run step Db.start linkedRun = some db := by
    refine Option.isSome_iff_exists.mp ?_
    decide +kernel
  obtain ⟨db, hrun⟩ := hrun
  exact ⟨db, hrun, links_agree (by decide +kernel) hrun⟩

/-- **A pull writes one side only** when no preparation matches: the meeting points to its audio
file, which points to no meeting. -/
theorem pulled_apart : ¬ ∀ (as : List (Action Bool)) (db : Db Bool),
    run step Db.start as = some db → LinksAgree db := by
  intro h
  have hrun : run step Db.start [.performPull true none] = some (performPull Db.start true none) :=
    rfl
  have hboth := ((h _ _ hrun).agree 0 _ rfl rfl 0 _ rfl rfl).mpr rfl
  cases hboth

end MesReunions.Meetings
