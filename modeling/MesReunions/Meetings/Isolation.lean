import MesReunions.Meetings.Links

/-!
# Links and the users they belong to

* **`SameUser`** — the two ends of a link have one user.
* `Action.OwnMeeting` — the meeting that video-ingest relays is one of the user's, or its column
  and that of the audio file are taken.
* **`sameUser_iff`** — the runs that keep every link within one user.
* **`links_cross`** — the endpoints `materialize` look the meeting up by its id alone.
-/

namespace MesReunions.Meetings

open TSys

universe u

variable {υ : Type u}

/-! ## Statements -/

/-- A link is between two rows of one user. -/
structure SameUser (db : Db υ) : Prop where
  audio : ∀ {i m j a}, db.meetings i = some m → m.userAudioFileId = some j →
    db.audios j = some a → a.userSub = m.userSub
  meeting : ∀ {j a i m}, db.audios j = some a → a.meetingId = some i →
    db.meetings i = some m → m.userSub = a.userSub

/-- What the `meeting_id` of a request may name. -/
def Action.OwnMeeting (db : Db υ) : Action υ → Prop
  | .materialize user _ meeting _ none =>
      ∀ i ∈ meeting, ∀ m ∈ db.meetings i, m.userSub = user
  | .materialize user _ meeting _ (some j) =>
      ∀ i ∈ meeting, ∀ m ∈ db.meetings i, ∀ a ∈ db.audios j,
        m.userSub = user ∨ m.userAudioFileId ≠ none ∧ a.meetingId ≠ none
  | .materializeAudio user _ meeting _ none =>
      ∀ i ∈ meeting, ∀ m ∈ db.meetings i, m.userSub = user ∨ m.userAudioFileId ≠ none
  | _ => True

instance [DecidableEq υ] (db : Db υ) : (a : Action υ) → Decidable (a.OwnMeeting db)
  | .materialize user _ meeting _ none =>
      inferInstanceAs (Decidable (∀ i ∈ meeting, ∀ m ∈ db.meetings i, m.userSub = user))
  | .materialize user _ meeting _ (some j) =>
      inferInstanceAs (Decidable (∀ i ∈ meeting, ∀ m ∈ db.meetings i, ∀ a ∈ db.audios j,
        m.userSub = user ∨ m.userAudioFileId ≠ none ∧ a.meetingId ≠ none))
  | .materializeAudio user _ meeting _ none =>
      inferInstanceAs (Decidable (∀ i ∈ meeting, ∀ m ∈ db.meetings i,
        m.userSub = user ∨ m.userAudioFileId ≠ none))
  | .materializeAudio _ _ _ _ (some _) => isTrue trivial
  | .createMeeting .. => isTrue trivial
  | .linkVideoToMeeting .. => isTrue trivial
  | .linkMeetingToPreparation .. => isTrue trivial
  | .linkMeetingToAudio .. => isTrue trivial
  | .linkAudioToPreparation .. => isTrue trivial
  | .trashMeeting .. => isTrue trivial
  | .restoreMeeting .. => isTrue trivial
  | .hardDeleteMeeting .. => isTrue trivial
  | .performPull .. => isTrue trivial
  | .mcrImport .. => isTrue trivial
  | .purgeAudio .. => isTrue trivial
  | .preparation .. => isTrue trivial
  | .deletePreparation .. => isTrue trivial

theorem Owned.sameUser {db : Db υ} (h : Owned db) : SameUser db where
  audio := by
    intro i m j a hm hj ha
    obtain ⟨b, hb, hbm⟩ := h.audio hm hj
    rw [ha] at hb
    cases hb
    exact hbm
  meeting := by
    intro j a i m ha hi hm
    obtain ⟨n, hn, hna⟩ := h.meeting ha hi
    rw [hm] at hn
    cases hn
    exact hna

/-! ## The endpoints that look both ends up by owner -/

section Endpoints

variable {db : Db υ} {user : υ} {i j : Nat} {m : Meeting υ} {a a' : UserAudioFile υ}

/-- A new meeting and an audio file of its user point to each other. -/
theorem Owned.hookNew (h : Owned db) (ha : db.audios j = some a) (huser : m.userSub = a.userSub)
    (hj : m.userAudioFileId = some j) (huser' : a'.userSub = a.userSub)
    (hi : a'.meetingId = some db.nextMeeting) : Owned ((db.addMeeting m).writeAudio j a') := by
  have hadded : Owned (db.addMeeting m) := by
    refine h.addMeeting fun l hl => ?_
    rw [hj] at hl
    cases hl
    exact ⟨a, ha, huser.symm⟩
  refine hadded.writeAudio ha huser' fun k hk => ?_
  rw [hi] at hk
  cases hk
  exact ⟨m, Function.update_self .., huser⟩

/-- Columns other than the link are written. -/
theorem Owned.keepLink (h : Owned db) (hm : db.meetings i = some m) {m' : Meeting υ}
    (huser : m'.userSub = m.userSub) (haudio : m'.userAudioFileId = m.userAudioFileId) :
    Owned (db.writeMeeting i m') :=
  h.writeMeeting hm huser fun _ hj => h.audio hm (haudio.symm.trans hj)

variable [DecidableEq υ]

theorem owned_createMeeting (h : Owned db) {audio prep : Option Nat} {source job : Option Int} :
    Owned (createMeeting db user audio prep source job) := by
  simp only [createMeeting]
  split
  · exact h
  rename_i howned
  split
  · exact h
  split
  · exact h
  cases audio with
  | none => exact h.addMeeting fun j hj => by cases hj
  | some j =>
      obtain ⟨a, ha⟩ : ∃ a, db.audio? user j = some a := by
        cases ha : db.audio? user j with
        | none => simp [ha] at howned
        | some a => exact ⟨a, rfl⟩
      have hfound : (db.addMeeting ⟨user, some j, prep, source, job, false⟩).audio? user j =
          some a := ha
      simp only [Db.setMeetingId, hfound]
      obtain ⟨hrow, rfl⟩ := audio?_eq.mp ha
      exact h.hookNew hrow rfl rfl rfl rfl

theorem owned_linkVideoToMeeting (h : Owned db) {source : Int} {job : Option Int} :
    Owned (linkVideoToMeeting db user i source job) := by
  simp only [linkVideoToMeeting]
  split
  · exact h
  · rename_i m hm
    exact h.keepLink (liveMeeting?_eq.mp hm).1 rfl rfl

theorem owned_linkMeetingToPreparation (h : Owned db) {prep : Option Nat} :
    Owned (linkMeetingToPreparation db user i prep) := by
  simp only [linkMeetingToPreparation]
  split
  · exact h
  · rename_i m hm
    split
    · exact h.keepLink (liveMeeting?_eq.mp hm).1 rfl rfl
    · exact h

theorem owned_unhook (h : Owned db) {prev : Option Nat} : Owned (unhook db user i prev) := by
  cases prev with
  | none => exact h
  | some prev =>
      simp only [unhook]
      split
      · exact h
      · rename_i a ha
        split
        · exact h.writeAudio (audio?_eq.mp ha).1 rfl fun k hk => by cases hk
        · exact h

theorem owned_linkMeetingToAudio (h : Owned db) {audio : Option Nat} :
    Owned (linkMeetingToAudio db user i audio) := by
  simp only [linkMeetingToAudio]
  split
  · exact h
  rename_i m hm
  obtain ⟨hrow, hmu, -⟩ := liveMeeting?_eq.mp hm
  split
  · exact h
  rename_i howned
  have hun : Owned (unhook db user i m.userAudioFileId) := owned_unhook h
  have hrow' : (unhook db user i m.userAudioFileId).meetings i = some m := by
    rw [meetings_unhook]
    exact hrow
  cases audio with
  | none => exact hun.writeMeeting hrow' rfl fun j hj => by cases hj
  | some j =>
      obtain ⟨a, ha⟩ : ∃ a, db.audio? user j = some a := by
        cases ha : db.audio? user j with
        | none => simp [ha] at howned
        | some a => exact ⟨a, rfl⟩
      obtain ⟨a', ha'⟩ : ∃ a', (unhook db user i m.userAudioFileId).audio? user j = some a' :=
        audio?_unhook ha
      generalize hdb : unhook db user i m.userAudioFileId = db' at hun hrow' ha'
      obtain ⟨hj, hau⟩ := audio?_eq.mp ha'
      have hwritten : Owned (db'.writeMeeting i { m with userAudioFileId := some j }) := by
        refine hun.writeMeeting hrow' rfl fun l hl => ?_
        cases hl
        exact ⟨a', hj, hau.trans hmu.symm⟩
      have hfound : (db'.writeMeeting i { m with userAudioFileId := some j }).audio? user j =
          some a' := ha'
      simp only [Db.setMeetingId, hfound]
      refine hwritten.writeAudio hj rfl fun k hk => ?_
      cases hk
      exact ⟨_, Function.update_self .., hmu.trans hau.symm⟩

theorem owned_linkAudioToPreparation (h : Owned db) {prep : Option Nat} :
    Owned (linkAudioToPreparation db user j prep) := by
  simp only [linkAudioToPreparation]
  split
  · exact h
  rename_i a ha
  obtain ⟨hrow, rfl⟩ := audio?_eq.mp ha
  split
  · exact h
  split
  · exact h.hookNew hrow rfl rfl rfl rfl
  · split
    · rename_i m hm
      exact h.keepLink (meeting?_eq.mp hm).1 rfl rfl
    · exact h.hookNew hrow rfl rfl rfl rfl

theorem owned_trashMeeting (h : Owned db) : Owned (trashMeeting db user i) := by
  simp only [trashMeeting]
  split
  · rename_i m hm
    exact h.keepLink (liveMeeting?_eq.mp hm).1 rfl rfl
  · exact h

theorem owned_restoreMeeting (h : Owned db) : Owned (restoreMeeting db user i) := by
  simp only [restoreMeeting]
  split
  · rename_i m hm
    split
    · exact h.keepLink (meeting?_eq.mp hm).1 rfl rfl
    · exact h
  · exact h

theorem owned_hardDeleteMeeting (h : Owned db) : Owned (hardDeleteMeeting db user i) := by
  simp only [hardDeleteMeeting]
  split
  · split
    · exact h.deleteMeeting
    · exact h
  · exact h

omit [DecidableEq υ] in
theorem owned_performPull (h : Owned db) {link : Option Nat} :
    Owned (performPull db user link) := by
  have hadded : Owned (db.addAudio ⟨user, none, none⟩) := h.addAudio fun k hk => by cases hk
  have hnew : (db.addAudio ⟨user, none, none⟩).audios db.nextAudio = some ⟨user, none, none⟩ :=
    Function.update_self ..
  cases link with
  | none =>
      refine hadded.addMeeting fun l hl => ?_
      cases hl
      exact ⟨_, hnew, rfl⟩
  | some p =>
      simp only [performPull]
      have hagain := addMeeting_again (db.addAudio ⟨user, none, none⟩)
        ⟨user, some db.nextAudio, none, none, none, false⟩
        ⟨user, some db.nextAudio, some p, none, none, false⟩
      rw [show (db.addAudio ⟨user, none, none⟩).nextMeeting = db.nextMeeting from rfl] at hagain
      rw [hagain]
      exact hadded.hookNew hnew rfl rfl rfl rfl

/-! ## The endpoints that look the meeting up by its id -/

omit [DecidableEq υ] in
/-- A meeting gets an audio file of its user, unless it had one. -/
theorem Owned.attach (h : Owned db) (hm : db.meetings i = some m) (ha : db.audios j = some a)
    {source job : Option Int} (hown : a.userSub = m.userSub ∨ m.userAudioFileId ≠ none) :
    Owned (db.writeMeeting i (m.attach j source job)) := by
  refine h.writeMeeting hm rfl fun l hl => ?_
  cases hfree : m.userAudioFileId with
  | none =>
      rw [attach_free hfree] at hl
      cases hl
      exact ⟨a, ha, hown.resolve_right fun htaken => htaken hfree⟩
  | some l' =>
      rw [attach_taken (by rw [hfree]; simp)] at hl
      exact h.audio hm hl

omit [DecidableEq υ] in
theorem owned_relink (h : Owned db) {source job : Option Int} (ha : db.audios j = some a)
    (hallowed : ∀ m ∈ db.meetings i, ∀ a ∈ db.audios j,
      m.userSub = a.userSub ∨ m.userAudioFileId ≠ none ∧ a.meetingId ≠ none) :
    Owned (relink db i j source job) := by
  simp only [relink]
  split
  · rename_i m b hm hb
    rw [ha] at hb
    cases hb
    have hown := hallowed m hm a ha
    have hattached : Owned (db.writeMeeting i (m.attach j source job)) :=
      h.attach hm ha (hown.imp Eq.symm And.left)
    refine hattached.writeAudio ha rfl fun k hk => ?_
    cases hset : a.meetingId with
    | none =>
        simp only [hset, Option.none_or] at hk
        cases hk
        exact ⟨_, Function.update_self .., hown.resolve_right fun hboth => hboth.2 hset⟩
    | some l =>
        simp only [hset, Option.some_or] at hk
        rw [← hset] at hk
        exact hattached.meeting ha hk
  · exact h

theorem owned_materialize (h : Owned db) {source job : Option Int} {meeting existing : Option Nat}
    (hanswer : answersSource db user source existing = true)
    (hown : (Action.materialize user source meeting job existing).OwnMeeting db) :
    Owned (materialize db user source meeting job existing) := by
  cases existing with
  | some j =>
      cases meeting with
      | none => exact h
      | some i =>
          obtain ⟨a, ha, rfl⟩ := audio_of_answersSource hanswer
          refine owned_relink h ha fun m hm b hb => ?_
          rw [show b = a from Option.some.inj (hb.symm.trans ha)]
          exact hown i rfl m hm a ha
  | none =>
      cases meeting with
      | none => exact h.addAudio fun k hk => by cases hk
      | some i =>
          simp only [materialize]
          split
          · exact h
          · rename_i m hm
            have hmu : m.userSub = user := hown i rfl m hm
            have hadded : Owned (db.addAudio ⟨user, some i, source⟩) := by
              refine h.addAudio fun k hk => ?_
              cases hk
              exact ⟨m, hm, hmu⟩
            exact hadded.attach hm (Function.update_self ..) (.inl hmu.symm)

theorem owned_materializeAudio (h : Owned db) {source job : Option Int}
    {meeting existing : Option Nat}
    (hown : (Action.materializeAudio user source meeting job existing).OwnMeeting db) :
    Owned (materializeAudio db user source meeting job existing) := by
  have hadded : Owned (db.addAudio ⟨user, none, source⟩) := h.addAudio fun k hk => by cases hk
  cases existing with
  | some j => exact h
  | none =>
      cases meeting with
      | none => exact hadded
      | some i =>
          simp only [materializeAudio]
          split
          · exact hadded
          · rename_i m hm
            exact hadded.attach hm (Function.update_self ..) ((hown i rfl m hm).imp Eq.symm id)

/-! ### The condition is needed -/

omit [DecidableEq υ] in
/-- A meeting that has no audio file gets that of the request. -/
theorem SameUser.of_attach {source job : Option Int}
    (h : SameUser (db.writeMeeting i (m.attach j source job))) (ha : db.audios j = some a) :
    m.userSub = a.userSub ∨ m.userAudioFileId ≠ none := by
  cases hfree : m.userAudioFileId with
  | none => exact .inl (h.audio (Function.update_self ..) (attach_free hfree) ha).symm
  | some l => exact .inr (by simp)

theorem ownMeeting_of_materialize {source job : Option Int} {meeting existing : Option Nat}
    (hanswer : answersSource db user source existing = true)
    (h : SameUser (materialize db user source meeting job existing)) :
    (Action.materialize user source meeting job existing).OwnMeeting db := by
  cases existing with
  | none =>
      intro i hi m hm
      cases hi
      simp only [materialize, show db.meetings i = some m from hm] at h
      have hrow : ((db.addAudio ⟨user, some i, source⟩).writeMeeting i
          (m.attach db.nextAudio source job)).audios db.nextAudio =
            some ⟨user, some i, source⟩ := Function.update_self ..
      have hattached : (m.attach db.nextAudio source job).userSub = user :=
        h.meeting hrow rfl (Function.update_self ..)
      exact hattached
  | some j =>
      intro i hi m hm a ha
      cases hi
      obtain ⟨b, hb, rfl⟩ := audio_of_answersSource hanswer
      rw [show a = b from Option.some.inj (ha.symm.trans hb)]
      simp only [materialize, relink, show db.meetings i = some m from hm, hb] at h
      have hmeeting : ((db.writeMeeting i (m.attach j source job)).writeAudio j
          { b with meetingId := b.meetingId.or (some i) }).meetings i =
            some (m.attach j source job) := Function.update_self ..
      have haudio : ((db.writeMeeting i (m.attach j source job)).writeAudio j
          { b with meetingId := b.meetingId.or (some i) }).audios j =
            some { b with meetingId := b.meetingId.or (some i) } := Function.update_self ..
      cases hfree : m.userAudioFileId with
      | none =>
          have hback := h.audio hmeeting (attach_free hfree) haudio
          exact .inl hback.symm
      | some l =>
          cases hset : b.meetingId with
          | none =>
              have hforth := h.meeting haudio (by simp only [hset, Option.none_or]) hmeeting
              exact .inl hforth
          | some k => exact .inr ⟨by simp, by simp⟩

theorem ownMeeting_of_materializeAudio {source job : Option Int} {meeting existing : Option Nat}
    (h : SameUser (materializeAudio db user source meeting job existing)) :
    (Action.materializeAudio user source meeting job existing).OwnMeeting db := by
  cases existing with
  | none =>
      intro i hi m hm
      cases hi
      simp only [materializeAudio, show db.meetings i = some m from hm] at h
      exact h.of_attach (Function.update_self ..)
  | some j => trivial

end Endpoints

/-! ## Runs -/

variable [DecidableEq υ]

theorem owned_step {db db' : Db υ} {a : Action υ} (h : Owned db) (hown : a.OwnMeeting db)
    (hs : step db a = some db') : Owned db' := by
  cases a with
  | createMeeting user audio prep source job =>
      cases hs
      exact owned_createMeeting h
  | linkVideoToMeeting user i source job =>
      cases hs
      exact owned_linkVideoToMeeting h
  | linkMeetingToPreparation user i prep =>
      cases hs
      exact owned_linkMeetingToPreparation h
  | linkMeetingToAudio user i audio =>
      cases hs
      exact owned_linkMeetingToAudio h
  | linkAudioToPreparation user j prep =>
      cases hs
      exact owned_linkAudioToPreparation h
  | trashMeeting user i =>
      cases hs
      exact owned_trashMeeting h
  | restoreMeeting user i =>
      cases hs
      exact owned_restoreMeeting h
  | hardDeleteMeeting user i =>
      cases hs
      exact owned_hardDeleteMeeting h
  | performPull user link =>
      simp only [step] at hs
      split at hs
      · cases hs
        exact owned_performPull h
      · cases hs
  | mcrImport user =>
      cases hs
      exact h.addAudio fun k hk => by cases hk
  | materialize user source meeting job existing =>
      simp only [step] at hs
      split at hs
      · rename_i hanswer
        cases hs
        exact owned_materialize h hanswer hown
      · cases hs
  | materializeAudio user source meeting job existing =>
      simp only [step] at hs
      split at hs
      · cases hs
        exact owned_materializeAudio h hown
      · cases hs
  | purgeAudio j =>
      cases hs
      exact h.deleteAudio
  | preparation p owner =>
      cases hs
      exact h.congr rfl rfl rfl rfl
  | deletePreparation p =>
      cases hs
      exact h.congr rfl rfl rfl (links_deletePreparation _ _)

/-- Under the invariant, a step crosses two users exactly when it may not take its meeting. -/
theorem sameUser_step_iff {db db' : Db υ} {a : Action υ} (h : Owned db)
    (hs : step db a = some db') : SameUser db' ↔ a.OwnMeeting db := by
  refine ⟨fun hsame => ?_, fun hown => (owned_step h hown hs).sameUser⟩
  cases a with
  | materialize user source meeting job existing =>
      simp only [step] at hs
      split at hs
      · rename_i hanswer
        cases hs
        exact ownMeeting_of_materialize hanswer hsame
      · cases hs
  | materializeAudio user source meeting job existing =>
      simp only [step] at hs
      split at hs
      · cases hs
        exact ownMeeting_of_materializeAudio hsame
      · cases hs
  | _ => trivial

/-- **No link crosses two users** in any state of a run exactly when each step may take the
meeting that its request names. -/
theorem sameUser_iff {db : Db υ} {as : List (Action υ)} (hrun : run step Db.start as = some db) :
    Along step (fun _ _ db' => SameUser db') Db.start as ↔
      Guarded step (fun db a => a.OwnMeeting db) Db.start as :=
  along_iff_guarded step Owned (fun _ _ _ h hs => sameUser_step_iff h hs)
    (fun _ _ _ h hown hs => owned_step h hown hs) linked_start.toOwned hrun

/-- The placeholder that `mesreunions-web` creates is the meeting that video-ingest relays; a
second video is then imported to a meeting that is taken. -/
def relayedRun : List (Action Bool) :=
  [.createMeeting true none none none none, .materialize true (some 3) (some 0) (some 7) none,
    .materializeAudio true (some 4) (some 0) (some 8) none,
    .materialize true (some 3) (some 0) (some 9) (some 0)]

theorem relayedRun_sameUser : ∃ db, run step Db.start relayedRun = some db ∧
    Along step (fun _ _ db' => SameUser db') Db.start relayedRun := by
  have hrun : ∃ db, run step Db.start relayedRun = some db := by
    refine Option.isSome_iff_exists.mp ?_
    decide +kernel
  obtain ⟨db, hrun⟩ := hrun
  exact ⟨db, hrun, (sameUser_iff hrun).mpr (by decide +kernel)⟩

/-- **A link crosses two users** when the `context_id` of an import is a meeting of another one. -/
theorem links_cross : ¬ ∀ (as : List (Action Bool)) (db : Db Bool),
    run step Db.start as = some db → SameUser db := by
  intro h
  have hsame := h [.createMeeting false none none none none,
    .materialize true (some 3) (some 0) (some 7) none] _ rfl
  have huser := hsame.meeting (j := 0) rfl rfl rfl
  cases huser

end MesReunions.Meetings
