import MesReunions.Meetings.Store

/-!
# The two sides of the link between a meeting and its audio file

* **`LinksAgree`** — the two columns say the same of every live meeting and every audio file of
  its user, and an audio file has one live meeting at most.
* `Linked` — the invariant: besides, a pointer is to a row of the same user. A meeting in the
  trash may say anything.
* `Linked.hook`, `Linked.unhook`, `Linked.restore`, … — what may be written under it.
-/

namespace MesReunions.Meetings

universe u

variable {υ : Type u}

/-! ## Statements -/

/-- At meeting `i`, if it is live, the two columns agree. -/
def AgreesAt (db : Db υ) (i : Nat) : Prop :=
  ∀ m, db.meetings i = some m → m.trashed = false → ∀ j a, db.audios j = some a →
    a.userSub = m.userSub → (a.meetingId = some i ↔ m.userAudioFileId = some j)

/-- Meeting `i` is live and one of the two columns says that it is the meeting of audio `j`. -/
def HasMeeting (db : Db υ) (j i : Nat) : Prop :=
  ∃ m, db.meetings i = some m ∧ m.trashed = false ∧
    (m.userAudioFileId = some j ∨ ∃ a, db.audios j = some a ∧ a.meetingId = some i)

structure LinksAgree (db : Db υ) : Prop where
  agree : ∀ i, AgreesAt db i
  one : ∀ {j i i'}, HasMeeting db j i → HasMeeting db j i' → i = i'

/-- No live meeting other than `but` has audio `j`. -/
def Free (db : Db υ) (j : Nat) (but : Option Nat) : Prop :=
  ∀ i, i < db.nextMeeting → some i ≠ but → ∀ m ∈ db.meetings i, m.trashed = false →
    m.userAudioFileId ≠ some j

/-- The two sides agree at meeting `i`, whether it is live or not. -/
def Mutual (db : Db υ) (i : Nat) (m : Meeting υ) : Prop :=
  (∀ j ∈ m.userAudioFileId, ∀ a ∈ db.audios j, a.meetingId = some i) ∧
    ∀ j, j < db.nextAudio → ∀ a ∈ db.audios j, a.meetingId = some i → m.userAudioFileId = some j

instance (db : Db υ) (j : Nat) (but : Option Nat) : Decidable (Free db j but) := by
  unfold Free; infer_instance

instance (db : Db υ) (i : Nat) (m : Meeting υ) : Decidable (Mutual db i m) := by
  unfold Mutual; infer_instance

/-! ## The pointers lead to rows of the same user -/

/-- The rows come from the counters, and a pointer is to a row of its user. -/
structure Owned (db : Db υ) : Prop where
  nextMeeting : ∀ {i m}, db.meetings i = some m → i < db.nextMeeting
  nextAudio : ∀ {j a}, db.audios j = some a → j < db.nextAudio
  audio : ∀ {i m j}, db.meetings i = some m → m.userAudioFileId = some j →
    ∃ a, db.audios j = some a ∧ a.userSub = m.userSub
  meeting : ∀ {j a i}, db.audios j = some a → a.meetingId = some i →
    ∃ m, db.meetings i = some m ∧ m.userSub = a.userSub

section Frames

variable {db : Db υ} {i j : Nat} {m m' : Meeting υ} {a a' : UserAudioFile υ}

theorem meetings_writeMeeting {k : Nat} {n : Meeting υ}
    (hn : (db.writeMeeting i m).meetings k = some n) :
    k = i ∧ n = m ∨ k ≠ i ∧ db.meetings k = some n := by
  by_cases hki : k = i
  · simp only [Db.writeMeeting, hki, Function.update_self, Option.some.injEq] at hn
    exact .inl ⟨hki, hn.symm⟩
  · simp only [Db.writeMeeting, Function.update_of_ne hki] at hn
    exact .inr ⟨hki, hn⟩

theorem audios_writeAudio {k : Nat} {b : UserAudioFile υ}
    (hb : (db.writeAudio j a).audios k = some b) :
    k = j ∧ b = a ∨ k ≠ j ∧ db.audios k = some b := by
  by_cases hkj : k = j
  · simp only [Db.writeAudio, hkj, Function.update_self, Option.some.injEq] at hb
    exact .inl ⟨hkj, hb.symm⟩
  · simp only [Db.writeAudio, Function.update_of_ne hkj] at hb
    exact .inr ⟨hkj, hb⟩

/-- A meeting that is written keeps its user and points to an audio of his. -/
theorem Owned.writeMeeting (h : Owned db) (hm : db.meetings i = some m)
    (huser : m'.userSub = m.userSub)
    (haudio : ∀ j, m'.userAudioFileId = some j →
      ∃ a, db.audios j = some a ∧ a.userSub = m.userSub) :
    Owned (db.writeMeeting i m') where
  nextMeeting := by
    intro k n hn
    rcases meetings_writeMeeting hn with ⟨rfl, -⟩ | ⟨-, hn⟩
    · exact h.nextMeeting hm
    · exact h.nextMeeting hn
  nextAudio := h.nextAudio
  audio := by
    intro k n j hn hj
    rcases meetings_writeMeeting hn with ⟨rfl, rfl⟩ | ⟨-, hn⟩
    · rw [huser]
      exact haudio j hj
    · exact h.audio hn hj
  meeting := by
    intro j a k ha hk
    obtain ⟨n, hn, hna⟩ := h.meeting ha hk
    by_cases hki : k = i
    · subst hki
      rw [hm] at hn
      cases hn
      exact ⟨m', Function.update_self .., huser.trans hna⟩
    · exact ⟨n, (Function.update_of_ne hki ..).trans hn, hna⟩

/-- An audio file that is written keeps its user and points to a meeting of his. -/
theorem Owned.writeAudio (h : Owned db) (ha : db.audios j = some a)
    (huser : a'.userSub = a.userSub)
    (hmeeting : ∀ i, a'.meetingId = some i →
      ∃ m, db.meetings i = some m ∧ m.userSub = a.userSub) :
    Owned (db.writeAudio j a') where
  nextMeeting := h.nextMeeting
  nextAudio := by
    intro k b hb
    rcases audios_writeAudio hb with ⟨rfl, -⟩ | ⟨-, hb⟩
    · exact h.nextAudio ha
    · exact h.nextAudio hb
  audio := by
    intro i m k hm hk
    obtain ⟨b, hb, hbm⟩ := h.audio hm hk
    by_cases hkj : k = j
    · subst hkj
      rw [ha] at hb
      cases hb
      exact ⟨a', Function.update_self .., huser.trans hbm⟩
    · exact ⟨b, (Function.update_of_ne hkj ..).trans hb, hbm⟩
  meeting := by
    intro k b i hb hi
    rcases audios_writeAudio hb with ⟨rfl, rfl⟩ | ⟨-, hb⟩
    · rw [huser]
      exact hmeeting i hi
    · exact h.meeting hb hi

theorem Owned.meetings_next (h : Owned db) : db.meetings db.nextMeeting = none := by
  cases hm : db.meetings db.nextMeeting with
  | none => rfl
  | some m => exact absurd (h.nextMeeting hm) (Nat.lt_irrefl _)

theorem Owned.audios_next (h : Owned db) : db.audios db.nextAudio = none := by
  cases ha : db.audios db.nextAudio with
  | none => rfl
  | some a => exact absurd (h.nextAudio ha) (Nat.lt_irrefl _)

theorem Owned.addMeeting (h : Owned db)
    (haudio : ∀ j, m.userAudioFileId = some j → ∃ a, db.audios j = some a ∧ a.userSub = m.userSub) :
    Owned (db.addMeeting m) where
  nextMeeting := by
    intro k n hn
    rcases meetings_writeMeeting hn with ⟨rfl, -⟩ | ⟨-, hn⟩
    · exact Nat.lt_succ_self _
    · exact Nat.lt_succ_of_lt (h.nextMeeting hn)
  nextAudio := h.nextAudio
  audio := by
    intro k n j hn hj
    rcases meetings_writeMeeting hn with ⟨rfl, rfl⟩ | ⟨-, hn⟩
    · exact haudio j hj
    · exact h.audio hn hj
  meeting := by
    intro j a k ha hk
    obtain ⟨n, hn, hna⟩ := h.meeting ha hk
    have hne : k ≠ db.nextMeeting := Nat.ne_of_lt (h.nextMeeting hn)
    exact ⟨n, (Function.update_of_ne hne ..).trans hn, hna⟩

theorem Owned.addAudio (h : Owned db)
    (hmeeting : ∀ i, a.meetingId = some i →
      ∃ m, db.meetings i = some m ∧ m.userSub = a.userSub) :
    Owned (db.addAudio a) where
  nextMeeting := h.nextMeeting
  nextAudio := by
    intro k b hb
    rcases audios_writeAudio hb with ⟨rfl, -⟩ | ⟨-, hb⟩
    · exact Nat.lt_succ_self _
    · exact Nat.lt_succ_of_lt (h.nextAudio hb)
  audio := by
    intro i m k hm hk
    obtain ⟨b, hb, hbm⟩ := h.audio hm hk
    have hne : k ≠ db.nextAudio := Nat.ne_of_lt (h.nextAudio hb)
    exact ⟨b, (Function.update_of_ne hne ..).trans hb, hbm⟩
  meeting := by
    intro k b i hb hi
    rcases audios_writeAudio hb with ⟨rfl, rfl⟩ | ⟨-, hb⟩
    · exact hmeeting i hi
    · exact h.meeting hb hi

/-! ### Deletions -/

theorem meetings_deleteMeeting {k : Nat} {n : Meeting υ}
    (hn : (db.deleteMeeting i).meetings k = some n) : k ≠ i ∧ db.meetings k = some n := by
  by_cases hki : k = i
  · simp [Db.deleteMeeting, hki] at hn
  · exact ⟨hki, (Function.update_of_ne hki ..).symm.trans hn⟩

/-- An audio file keeps its pointer, unless it was to the meeting that is deleted. -/
theorem audios_deleteMeeting {l : Nat} {b : UserAudioFile υ}
    (hb : (db.deleteMeeting i).audios l = some b) : ∃ a, db.audios l = some a ∧
      b.userSub = a.userSub ∧ ∀ k, b.meetingId = some k ↔ a.meetingId = some k ∧ k ≠ i := by
  obtain ⟨a, ha, rfl⟩ := Option.map_eq_some_iff.mp hb
  refine ⟨a, ha, ?_⟩
  split
  · rename_i hai
    refine ⟨rfl, fun k => ⟨fun hk => (by cases hk), fun hk => ?_⟩⟩
    rw [hai] at hk
    exact absurd (Option.some.inj hk.1).symm hk.2
  · rename_i hai
    exact ⟨rfl, fun k => ⟨fun hk => ⟨hk, fun hki => hai (hki ▸ hk)⟩, fun hk => hk.1⟩⟩

theorem audios_deleteAudio {l : Nat} {b : UserAudioFile υ}
    (hb : (db.deleteAudio j).audios l = some b) : l ≠ j ∧ db.audios l = some b := by
  by_cases hlj : l = j
  · simp [Db.deleteAudio, hlj] at hb
  · exact ⟨hlj, (Function.update_of_ne hlj ..).symm.trans hb⟩

/-- A meeting keeps its pointer, unless it was to the audio file that is deleted. -/
theorem meetings_deleteAudio {k : Nat} {n : Meeting υ}
    (hn : (db.deleteAudio j).meetings k = some n) : ∃ m, db.meetings k = some m ∧
      n.userSub = m.userSub ∧ n.trashed = m.trashed ∧
      ∀ l, n.userAudioFileId = some l ↔ m.userAudioFileId = some l ∧ l ≠ j := by
  obtain ⟨m, hm, rfl⟩ := Option.map_eq_some_iff.mp hn
  refine ⟨m, hm, ?_⟩
  split
  · rename_i hmj
    refine ⟨rfl, rfl, fun l => ⟨fun hl => (by cases hl), fun hl => ?_⟩⟩
    rw [hmj] at hl
    exact absurd (Option.some.inj hl.1).symm hl.2
  · rename_i hmj
    exact ⟨rfl, rfl, fun l => ⟨fun hl => ⟨hl, fun hlj => hmj (hlj ▸ hl)⟩, fun hl => hl.1⟩⟩

theorem Owned.deleteMeeting (h : Owned db) : Owned (db.deleteMeeting i) where
  nextMeeting := fun hn => h.nextMeeting (meetings_deleteMeeting hn).2
  nextAudio := by
    intro l b hb
    obtain ⟨a, ha, -⟩ := audios_deleteMeeting hb
    exact h.nextAudio ha
  audio := by
    intro k n l hn hl
    obtain ⟨a, ha, han⟩ := h.audio (meetings_deleteMeeting hn).2 hl
    refine ⟨_, by simp only [Db.deleteMeeting, ha]; rfl, ?_⟩
    dsimp only
    split <;> exact han
  meeting := by
    intro l b k hb hk
    obtain ⟨a, ha, hba, hmeeting⟩ := audios_deleteMeeting hb
    obtain ⟨hak, hki⟩ := (hmeeting k).mp hk
    obtain ⟨n, hn, hna⟩ := h.meeting ha hak
    exact ⟨n, (Function.update_of_ne hki ..).trans hn, hna.trans hba.symm⟩

theorem Owned.deleteAudio (h : Owned db) : Owned (db.deleteAudio j) where
  nextMeeting := by
    intro k n hn
    obtain ⟨m, hm, -⟩ := meetings_deleteAudio hn
    exact h.nextMeeting hm
  nextAudio := fun hb => h.nextAudio (audios_deleteAudio hb).2
  audio := by
    intro k n l hn hl
    obtain ⟨m, hm, hnm, -, haudio⟩ := meetings_deleteAudio hn
    obtain ⟨hml, hlj⟩ := (haudio l).mp hl
    obtain ⟨a, ha, ham⟩ := h.audio hm hml
    exact ⟨a, (Function.update_of_ne hlj ..).trans ha, ham.trans hnm.symm⟩
  meeting := by
    intro l b k hb hk
    obtain ⟨m, hm, hmb⟩ := h.meeting (audios_deleteAudio hb).2 hk
    refine ⟨_, by simp only [Db.deleteAudio, hm]; rfl, ?_⟩
    dsimp only
    split <;> exact hmb

/-- The row of the same number, where the columns of the link are the same. -/
theorem meeting_of_links_eq {db' : Db υ} {k : Nat} {n : Meeting υ}
    (hmeetings : ∀ {i}, (db'.meetings i).map (fun m => (m.userSub, m.userAudioFileId, m.trashed)) =
      (db.meetings i).map fun m => (m.userSub, m.userAudioFileId, m.trashed))
    (hn : db'.meetings k = some n) : ∃ m, db.meetings k = some m ∧
      n.userSub = m.userSub ∧ n.userAudioFileId = m.userAudioFileId ∧ n.trashed = m.trashed := by
  have hk := hmeetings (i := k)
  rw [hn] at hk
  obtain ⟨m, hm, hmn⟩ := Option.map_eq_some_iff.mp hk.symm
  simp only [Prod.mk.injEq] at hmn
  exact ⟨m, hm, hmn.1.symm, hmn.2.1.symm, hmn.2.2.symm⟩

theorem Owned.congr {db' : Db υ} (h : Owned db) (haudios : db'.audios = db.audios)
    (hnextMeeting : db'.nextMeeting = db.nextMeeting) (hnextAudio : db'.nextAudio = db.nextAudio)
    (hmeetings : ∀ {i}, (db'.meetings i).map (fun m => (m.userSub, m.userAudioFileId, m.trashed)) =
      (db.meetings i).map fun m => (m.userSub, m.userAudioFileId, m.trashed)) : Owned db' where
  nextMeeting := by
    intro k n hn
    obtain ⟨m, hm, -⟩ := meeting_of_links_eq hmeetings hn
    rw [hnextMeeting]
    exact h.nextMeeting hm
  nextAudio := by
    intro l b hb
    rw [haudios] at hb
    rw [hnextAudio]
    exact h.nextAudio hb
  audio := by
    intro k n l hn hl
    obtain ⟨m, hm, hnm, haudio, -⟩ := meeting_of_links_eq hmeetings hn
    rw [haudios, hnm]
    exact h.audio hm (haudio.symm.trans hl)
  meeting := by
    intro l b k hb hk
    rw [haudios] at hb
    obtain ⟨m, hm, hmb⟩ := h.meeting hb hk
    have hn := hmeetings (i := k)
    rw [hm] at hn
    obtain ⟨n, hn, hnm⟩ := Option.map_eq_some_iff.mp hn
    simp only [Prod.mk.injEq] at hnm
    exact ⟨n, hn, hnm.1.trans hmb⟩

/-- A meeting that loses its preparation keeps its link. -/
theorem links_deletePreparation (db : Db υ) (p : Nat) {i : Nat} :
    ((db.deletePreparation p).meetings i).map (fun m => (m.userSub, m.userAudioFileId, m.trashed)) =
      (db.meetings i).map fun m => (m.userSub, m.userAudioFileId, m.trashed) := by
  simp only [Db.deletePreparation, Option.map_map]
  congr 1
  funext m
  simp only [Function.comp_apply]
  split <;> rfl

/-! ## Agreement at one meeting -/

theorem AgreesAt.writeMeeting {k : Nat} (h : AgreesAt db k) (hk : k ≠ i) :
    AgreesAt (db.writeMeeting i m) k := by
  intro n hn
  rcases meetings_writeMeeting hn with ⟨rfl, -⟩ | ⟨-, hn⟩
  · exact absurd rfl hk
  · exact h n hn

/-- Meeting `k` does not notice that audio `j` turns from another meeting to another one. -/
theorem AgreesAt.writeAudio {k : Nat} (h : AgreesAt db k) (ha : db.audios j = some a)
    (huser : a'.userSub = a.userSub) (hk : a'.meetingId = some k ↔ a.meetingId = some k) :
    AgreesAt (db.writeAudio j a') k := by
  intro n hn hlive l b hb hbn
  rcases audios_writeAudio hb with ⟨rfl, rfl⟩ | ⟨-, hb⟩
  · exact hk.trans (h n hn hlive l a ha (huser.symm.trans hbn))
  · exact h n hn hlive l b hb hbn

theorem AgreesAt.addMeeting {k : Nat} (h : AgreesAt db k) (hk : k ≠ db.nextMeeting) :
    AgreesAt (db.addMeeting m) k :=
  AgreesAt.writeMeeting (m := m) h hk

theorem AgreesAt.addAudio {k : Nat} (h : AgreesAt db k) (howned : Owned db)
    (hk : ∀ n, db.meetings k = some n → n.trashed = false → a.meetingId ≠ some k) :
    AgreesAt (db.addAudio a) k := by
  intro n hn hlive l b hb hbn
  rcases audios_writeAudio hb with ⟨rfl, rfl⟩ | ⟨-, hb⟩
  · -- No meeting points to a row that did not exist.
    refine ⟨fun h => absurd h (hk n hn hlive), fun h => ?_⟩
    obtain ⟨b, hb, -⟩ := howned.audio hn h
    rw [howned.audios_next] at hb
    cases hb
  · exact h n hn hlive l b hb hbn

/-- At a meeting in the trash there is nothing to agree on. -/
theorem agreesAt_of_trashed (h : ∀ m, db.meetings i = some m → m.trashed = true) :
    AgreesAt db i := by
  intro m hm hlive
  rw [h m hm] at hlive
  cases hlive

/-! ## Rows that are linked -/

/-- What allowed actions preserve. -/
structure Linked (db : Db υ) : Prop extends Owned db where
  agree : ∀ i, AgreesAt db i

theorem linked_start : Linked (Db.start : Db υ) := by
  refine ⟨⟨?_, ?_, ?_, ?_⟩, ?_⟩
  · intro i m hm
    cases hm
  · intro j a ha
    cases ha
  · intro i m j hm
    cases hm
  · intro j a i ha
    cases ha
  · intro i m hm
    cases hm

/-- An audio file of one user that a meeting points to is the one that points back. -/
theorem Linked.points_back (h : Linked db) (hm : db.meetings i = some m)
    (hlive : m.trashed = false) (hj : m.userAudioFileId = some j) (ha : db.audios j = some a) :
    a.meetingId = some i := by
  obtain ⟨b, hb, hbm⟩ := h.audio hm hj
  rw [ha] at hb
  cases hb
  exact (h.agree i m hm hlive j a ha hbm).mpr hj

/-- Conversely, a live meeting that an audio points to points back. -/
theorem Linked.points_forth (h : Linked db) (ha : db.audios j = some a)
    (hi : a.meetingId = some i) (hm : db.meetings i = some m) (hlive : m.trashed = false) :
    m.userAudioFileId = some j := by
  obtain ⟨n, hn, hna⟩ := h.meeting ha hi
  rw [hm] at hn
  cases hn
  exact (h.agree i m hm hlive j a ha hna.symm).mp hi

/-- An audio file has one live meeting: the one that it points to. -/
theorem Linked.meeting_of_has (h : Linked db) (hi : HasMeeting db j i) :
    ∃ a, db.audios j = some a ∧ a.meetingId = some i := by
  obtain ⟨m, hm, hlive, hj | ha⟩ := hi
  · obtain ⟨a, ha, -⟩ := h.audio hm hj
    exact ⟨a, ha, h.points_back hm hlive hj ha⟩
  · exact ha

theorem Linked.linksAgree (h : Linked db) : LinksAgree db where
  agree := h.agree
  one := by
    intro j i i' hi hi'
    obtain ⟨a, ha, hai⟩ := h.meeting_of_has hi
    obtain ⟨b, hb, hbi⟩ := h.meeting_of_has hi'
    rw [ha] at hb
    cases hb
    rw [hai] at hbi
    exact Option.some.inj hbi

theorem Linked.addAudio (h : Linked db) (hnone : a.meetingId = none) : Linked (db.addAudio a) where
  toOwned := h.toOwned.addAudio fun i hi => by rw [hnone] at hi; cases hi
  agree := fun k => (h.agree k).addAudio h.toOwned fun n _ _ hk => by rw [hnone] at hk; cases hk

theorem Linked.addMeeting (h : Linked db) (hnone : m.userAudioFileId = none) :
    Linked (db.addMeeting m) where
  toOwned := h.toOwned.addMeeting fun j hj => by rw [hnone] at hj; cases hj
  agree := by
    intro k
    by_cases hk : k = db.nextMeeting
    · intro n hn _ l b hb _
      rcases meetings_writeMeeting hn with ⟨-, rfl⟩ | ⟨hne, -⟩
      · refine ⟨fun hi => ?_, fun hl => by rw [hnone] at hl; cases hl⟩
        -- No audio file points to a row that did not exist.
        obtain ⟨n, hn, -⟩ := h.meeting hb hi
        rw [hk, h.meetings_next] at hn
        cases hn
      · exact absurd hk hne
    · exact (h.agree k).addMeeting hk

/-- Other columns are written, or the meeting goes to the trash. -/
theorem Linked.writeMeeting (h : Linked db) (hm : db.meetings i = some m)
    (huser : m'.userSub = m.userSub) (haudio : m'.userAudioFileId = m.userAudioFileId)
    (htrashed : m'.trashed = false → m.trashed = false) : Linked (db.writeMeeting i m') where
  toOwned := h.toOwned.writeMeeting hm huser fun j hj => h.audio hm (haudio.symm.trans hj)
  agree := by
    intro k n hn hlive l b hb hbn
    rcases meetings_writeMeeting hn with ⟨rfl, rfl⟩ | ⟨-, hn⟩
    · rw [haudio]
      exact h.agree k m hm (htrashed hlive) l b hb (hbn.trans huser)
    · exact h.agree k n hn hlive l b hb hbn

/-- A meeting in the trash may point to any audio file of its user. -/
theorem Linked.writeTrashed (h : Linked db) (hm : db.meetings i = some m)
    (huser : m'.userSub = m.userSub) (htrashed : m'.trashed = true)
    (haudio : ∀ j, m'.userAudioFileId = some j →
      ∃ a, db.audios j = some a ∧ a.userSub = m.userSub) :
    Linked (db.writeMeeting i m') where
  toOwned := h.toOwned.writeMeeting hm huser haudio
  agree := by
    intro k
    by_cases hk : k = i
    · refine agreesAt_of_trashed fun n hn => ?_
      rcases meetings_writeMeeting hn with ⟨-, rfl⟩ | ⟨hne, -⟩
      · exact htrashed
      · exact absurd hk hne
    · exact (h.agree k).writeMeeting hk

/-- An audio file that has no meeting may point to a meeting of its user in the trash. -/
theorem Linked.pointTrashed (h : Linked db) (ha : db.audios j = some a) (hm : db.meetings i = some m)
    (huser : a'.userSub = a.userSub) (hma : m.userSub = a.userSub) (htrashed : m.trashed = true)
    (hfree : a.meetingId = none) (hpoints : a'.meetingId = some i) :
    Linked (db.writeAudio j a') where
  toOwned := h.toOwned.writeAudio ha huser fun k hk => by
    rw [hpoints] at hk
    cases hk
    exact ⟨m, hm, hma⟩
  agree := by
    intro k
    by_cases hk : k = i
    · refine agreesAt_of_trashed fun n hn => ?_
      rw [hk] at hn
      rw [show m = n from Option.some.inj (hm.symm.trans hn)] at htrashed
      exact htrashed
    · refine (h.agree k).writeAudio ha huser ?_
      rw [hpoints, hfree]
      refine ⟨fun hik => absurd (Option.some.inj hik).symm hk, fun hik => by cases hik⟩

/-- **Hook.** Meeting `i` and audio `j` point to each other. No other live meeting has `j`, and
no other audio file has `i`. -/
theorem Linked.hook (h : Linked db) (hm : db.meetings i = some m) (ha : db.audios j = some a)
    (huser : m'.userSub = m.userSub) (huser' : a'.userSub = a.userSub)
    (hma : m.userSub = a.userSub) (hj : m'.userAudioFileId = some j) (hi : a'.meetingId = some i)
    (hfree : ∀ k n, k ≠ i → db.meetings k = some n → n.trashed = false →
      n.userAudioFileId ≠ some j)
    (halone : ∀ l b, db.audios l = some b → b.meetingId = some i → l = j) :
    Linked ((db.writeMeeting i m').writeAudio j a') where
  toOwned := by
    refine Owned.writeAudio (h.toOwned.writeMeeting hm huser ?_) ha huser' ?_
    · intro l hl
      rw [hj] at hl
      cases hl
      exact ⟨a, ha, hma.symm⟩
    · intro k hk
      rw [hi] at hk
      cases hk
      exact ⟨m', Function.update_self .., huser.trans hma⟩
  agree := by
    intro k n hn hlive l b hb hbn
    have hwritten : (db.writeMeeting i m').meetings k = some n := hn
    rcases meetings_writeMeeting hwritten with ⟨rfl, rfl⟩ | ⟨hki, hold⟩ <;>
      rcases audios_writeAudio hb with ⟨rfl, rfl⟩ | ⟨hlj, hb⟩
    · exact ⟨fun _ => hj, fun _ => hi⟩
    · refine ⟨fun hbk => absurd (halone l b hb hbk) hlj, fun hl => ?_⟩
      rw [hj] at hl
      exact absurd (Option.some.inj hl).symm hlj
    · refine ⟨fun hbk => ?_, fun hl => absurd hl (hfree k n hki hold hlive)⟩
      rw [hi] at hbk
      exact absurd (Option.some.inj hbk).symm hki
    · exact h.agree k n hold hlive l b hb hbn

/-- A meeting leaves the trash. -/
theorem Linked.restore (h : Linked db) (hm : db.meetings i = some m) (hmutual : Mutual db i m) :
    Linked (db.writeMeeting i { m with trashed := false }) where
  toOwned := h.toOwned.writeMeeting hm rfl fun j hj => h.audio hm hj
  agree := by
    intro k n hn hlive l b hb hbn
    rcases meetings_writeMeeting hn with ⟨rfl, rfl⟩ | ⟨-, hn⟩
    · exact ⟨hmutual.2 l (h.nextAudio hb) b hb, fun hl => hmutual.1 l hl b hb⟩
    · exact h.agree k n hn hlive l b hb hbn

theorem Linked.deleteMeeting (h : Linked db) : Linked (db.deleteMeeting i) where
  toOwned := h.toOwned.deleteMeeting
  agree := by
    intro k n hn hlive l b hb hbn
    obtain ⟨hki, hn⟩ := meetings_deleteMeeting hn
    obtain ⟨a, ha, hba, hmeeting⟩ := audios_deleteMeeting hb
    rw [hmeeting k, ← h.agree k n hn hlive l a ha (hba.symm.trans hbn)]
    exact ⟨fun hk => hk.1, fun hk => ⟨hk, hki⟩⟩

theorem Linked.deleteAudio (h : Linked db) : Linked (db.deleteAudio j) where
  toOwned := h.toOwned.deleteAudio
  agree := by
    intro k n hn hlive l b hb hbn
    obtain ⟨hlj, hb⟩ := audios_deleteAudio hb
    obtain ⟨m, hm, hnm, htrashed, haudio⟩ := meetings_deleteAudio hn
    rw [haudio l, h.agree k m hm (htrashed.symm.trans hlive) l b hb (hbn.trans hnm)]
    exact ⟨fun hl => ⟨hl, hlj⟩, fun hl => hl.1⟩

/-- Rows whose links are those of other rows. -/
theorem Linked.congr {db' : Db υ} (h : Linked db) (haudios : db'.audios = db.audios)
    (hnextMeeting : db'.nextMeeting = db.nextMeeting) (hnextAudio : db'.nextAudio = db.nextAudio)
    (hmeetings : ∀ {i}, (db'.meetings i).map (fun m => (m.userSub, m.userAudioFileId, m.trashed)) =
      (db.meetings i).map fun m => (m.userSub, m.userAudioFileId, m.trashed)) : Linked db' where
  toOwned := h.toOwned.congr haudios hnextMeeting hnextAudio hmeetings
  agree := by
    intro k n hn hlive l b hb hbn
    obtain ⟨m, hm, hnm, haudio, htrashed⟩ := meeting_of_links_eq hmeetings hn
    rw [haudios] at hb
    rw [haudio]
    exact h.agree k m hm (htrashed.symm.trans hlive) l b hb (hbn.trans hnm)

/-- Nothing points to a live meeting that has no audio file. -/
theorem Linked.alone (h : Linked db) (hm : db.meetings i = some m) (hlive : m.trashed = false)
    (hnone : m.userAudioFileId = none) :
    ∀ l b, db.audios l = some b → b.meetingId ≠ some i := by
  intro l b hb hi
  have hl := h.points_forth hb hi hm hlive
  rw [hnone] at hl
  cases hl

theorem Linked.free (h : Linked db) {but : Option Nat} (hfree : Free db j but) {k : Nat}
    {n : Meeting υ} (hk : some k ≠ but) (hn : db.meetings k = some n) (hlive : n.trashed = false) :
    n.userAudioFileId ≠ some j :=
  hfree k (h.nextMeeting hn) hk n hn hlive

theorem addMeeting_again (db : Db υ) (m m' : Meeting υ) :
    (db.addMeeting m).writeMeeting db.nextMeeting m' = db.addMeeting m' := by
  simp only [Db.addMeeting, Db.writeMeeting, Function.update_idem]

/-- A new meeting and an audio file that has none. -/
theorem Linked.hookNew (h : Linked db) (ha : db.audios j = some a) (huser : m.userSub = a.userSub)
    (hlive : m.trashed = false) (hj : m.userAudioFileId = some j) (huser' : a'.userSub = a.userSub)
    (hi : a'.meetingId = some db.nextMeeting) (hfree : Free db j none) :
    Linked ((db.addMeeting m).writeAudio j a') := by
  have hnew : Linked (db.addMeeting { m with userAudioFileId := none }) := h.addMeeting rfl
  have hm : (db.addMeeting { m with userAudioFileId := none }).meetings db.nextMeeting =
      some { m with userAudioFileId := none } := Function.update_self ..
  rw [← addMeeting_again db { m with userAudioFileId := none } m]
  refine hnew.hook hm ha rfl huser' huser hj hi ?_ ?_
  · intro k n hk hn hn'
    rcases meetings_writeMeeting hn with ⟨rfl, -⟩ | ⟨-, hn⟩
    · exact absurd rfl hk
    · exact h.free hfree (by simp) hn hn'
  · intro l b hb hbi
    exact absurd hbi (hnew.alone hm hlive rfl l b hb)

/-- A live meeting leaves its audio file. -/
theorem Linked.unhook (h : Linked db) (hm : db.meetings i = some m) (ha : db.audios j = some a)
    (hlive : m.trashed = false) (hj : m.userAudioFileId = some j) :
    Linked ((db.writeAudio j { a with meetingId := none }).writeMeeting i
      { m with userAudioFileId := none }) where
  toOwned := by
    refine Owned.writeMeeting (h.toOwned.writeAudio ha rfl ?_) hm rfl ?_
    · intro k hk
      cases hk
    · intro l hl
      cases hl
  agree := by
    intro k
    by_cases hk : k = i
    · intro n hn _ l b hb _
      rcases meetings_writeMeeting hn with ⟨-, rfl⟩ | ⟨hne, -⟩
      · refine ⟨fun hb' => ?_, fun hl => by cases hl⟩
        have hold : (db.writeAudio j { a with meetingId := none }).audios l = some b := hb
        rcases audios_writeAudio hold with ⟨-, rfl⟩ | ⟨hlj, hold⟩
        · cases hb'
        · rw [hk] at hb'
          have hl := h.points_forth hold hb' hm hlive
          rw [hj] at hl
          exact absurd (Option.some.inj hl).symm hlj
      · exact absurd hk hne
    · have hturned : AgreesAt (db.writeAudio j { a with meetingId := none }) k := by
        refine (h.agree k).writeAudio ha rfl ?_
        rw [h.points_back hm hlive hj ha]
        exact ⟨fun hk' => (by cases hk'), fun hk' => absurd (Option.some.inj hk').symm hk⟩
      exact hturned.writeMeeting hk

end Frames

end MesReunions.Meetings
