import MesReunions.Watchdog.Texts

/-!
# A reprocess request and the transcript of its row

`reprocess_audio` puts a row with a transcript in `kevent_reprocessing`, a status that the watchdog
scans, and its chain says nothing until it ends. What the watchdog then resubmits is the whole
pipeline, which begins by erasing the transcript.

* `Kept.Calm` — no thread is at the row but chains of LLM steps.
* `Move.Spares` — no scan returns the row, and the user asks for no full reprocess.
* **`texts_kept`** — along such a run only the user changes the texts of the row.
* **`reprocess_erases`** — a chain of more than five minutes, and one tick.
-/

namespace MesReunions.Watchdog

open TSys

variable {cfg : Config} {s s' : Kept} {m : Move} {a : Nat}

/-! ## Statements -/

/-- Row `a` exists, and no run of `scan_and_resume`, no pipeline and no full reprocess is at it. -/
structure Kept.Calm (s : Kept) (a : Nat) : Prop where
  row : s.world.rows a ≠ none
  calls : ∀ c, ¬ s.world.InHand c a
  pipes : ∀ p pipe, s.world.pipes p = some pipe → pipe.audio ≠ a
  requests : ∀ q r, s.world.requests q = some r → r.audio = a →
    r.action ≠ .fullReprocess ∧ r.committed = false

/-- No scan returns row `a`; nobody asks to reprocess it in full, or to import it again. -/
def Move.Spares (a : Nat) : Move → Prop
  | .act (.scan _ _ found) _ => a ∉ found.map (·.1)
  | .act (.ask _ action b _) _ => ¬ (action = .fullReprocess ∧ b = a)
  | .act (.mcr b _) _ => b ≠ a
  | _ => True

/-- The texts of row `a` stay, but for what the user writes. -/
def TextsKept (a : Nat) (s : Kept) (m : Move) (s' : Kept) : Prop :=
  s'.texts a = match m with
    | .act (.edit b) given => if b = a then given else s.texts a
    | _ => s.texts a

/-! ## One step -/

/-- A row that is fresh or terminal is spared by the loop. -/
theorem spared_of_not_stuck {c : Nat} {caller : Caller} {found : List (Nat × String)} {given : Texts}
    (hs : keptStep cfg s (.act (.scan c caller found) given) = some s')
    (hrow : ∀ r ∈ s.world.rows a, r.stuck cfg caller s.world.now = false) :
    (Move.act (.scan c caller found) given).Spares a := by
  intro ha
  obtain ⟨x, hx, rfl⟩ := List.mem_map.mp ha
  obtain ⟨r, hr, hstuck⟩ := (scan_step (keptStep_act hs).1).1 x hx
  rw [hrow r hr] at hstuck
  cases hstuck

theorem calm_step (h : s.Calm a) (hm : m.Spares a) (hs : keptStep cfg s m = some s') :
    s'.Calm a := by
  cases m with
  | lost b =>
      obtain ⟨-, rfl⟩ := keptStep_lost hs
      exact ⟨h.row, h.calls, h.pipes, h.requests⟩
  | act act given =>
      have hstep := (keptStep_act hs).1
      refine ⟨rows_some hstep h.row, ?_, ?_, ?_⟩
      · intro c hc
        rcases inHand_step hstep hc with ⟨hold, -⟩ | ⟨caller, found, rfl, hfound, -⟩
        · exact h.calls c hold
        · exact hm hfound
      · intro p pipe hp
        rcases pipe_step hstep hp with hold | hlaunch
        · exact h.pipes p pipe hold
        · intro ha
          cases act with
          | create b src userSub t =>
              obtain ⟨-, rfl⟩ := hlaunch
              have hb : b = a := ha
              exact h.row (hb ▸ row_of_create hstep)
          | submit c t =>
              refine h.calls c (.inl ?_)
              rw [hlaunch.1, ← ha]
              rfl
          | launch q t =>
              obtain ⟨⟨r, hr, hra, hcommitted⟩, -⟩ := hlaunch
              rw [(h.requests q r hr (hra.trans ha)).2] at hcommitted
              cases hcommitted
          | _ => exact hlaunch
      · intro q r hr hra
        rcases request_step hstep hr with ⟨r₀, hr₀, haction, haudio, hcommitted⟩ | ⟨hnew, _, rfl⟩
        · obtain ⟨hfull, hold⟩ := h.requests q r₀ hr₀ (haudio.trans hra)
          rw [haction] at hfull
          refine ⟨hfull, ?_⟩
          rw [← Bool.not_eq_true]
          intro hc
          rcases hcommitted hc with hc | hc
          · rw [hold] at hc
            cases hc
          · exact hfull hc
        · exact ⟨fun hfull => hm ⟨hfull, hra⟩, hnew⟩

/-- No reset is of a row that nobody is at. -/
theorem not_clears_of_calm {act : Act} (h : s.Calm a) : s.world.clears act ≠ some a := by
  intro hclears
  cases act with
  | commit c probe ok =>
      cases ok with
      | true =>
          simp only [World.clears] at hclears
          split at hclears
          · rename_i b loaded hphase
            split at hclears
            · cases hclears
              exact h.calls c (.inl (by rw [hphase]; rfl))
            · cases hclears
          · cases hclears
      | false => cases hclears
  | answer q =>
      simp only [World.clears] at hclears
      split at hclears
      · rename_i b loaded hq
        cases hclears
        exact (h.requests q _ hq rfl).1 rfl
      · cases hclears
  | _ => cases hclears

theorem textsKept_step (h : s.Calm a) (hm : m.Spares a) (hs : keptStep cfg s m = some s') :
    TextsKept a s m s' := by
  cases m with
  | lost b =>
      obtain ⟨-, rfl⟩ := keptStep_lost hs
      rfl
  | act act given =>
      obtain ⟨hstep, htexts, -⟩ := keptStep_act hs
      have hclears : s.world.clears act ≠ some a := not_clears_of_calm h
      unfold TextsKept
      rw [htexts]
      cases act with
      | edit b =>
          dsimp only
          by_cases hba : b = a
          · subst hba
            rw [if_pos rfl]
            exact Function.update_self ..
          · rw [if_neg hba]
            exact Function.update_of_ne (Ne.symm hba) ..
      | create b src userSub p =>
          refine nextTexts_of_ne hclears fun t hstores => ?_
          have hb : b = a := by
            cases src <;> cases hstores <;> rfl
          exact h.row (hb ▸ row_of_create hstep)
      | finish p e =>
          refine nextTexts_of_ne hclears fun t hstores => ?_
          obtain ⟨pipe, hp, hstored⟩ := Option.bind_eq_some_iff.mp hstores
          split at hstored
          · cases hstored
            exact h.pipes p pipe hp rfl
          · cases hstored
      | mcr b work =>
          refine nextTexts_of_ne hclears fun t hstores => ?_
          cases work with
          | transcript =>
              cases hstores
              exact hm rfl
          | _ => cases hstores
      | _ => exact nextTexts_of_ne hclears fun t hstores => by cases hstores

/-- **The transcript stays.** Whatever chains run on the row, for however long, and whatever the
watchdog does elsewhere: where no scan returns the row, only the user changes its texts. -/
theorem texts_kept {ms : List Move} (hcalm : s.Calm a)
    (hspares : Guarded (keptStep cfg) (fun _ m => m.Spares a) s ms) :
    Along (keptStep cfg) (TextsKept a) s ms := by
  refine along_of_guarded (keptStep cfg) (fun s => s.Calm a) ?_ hcalm hspares
  intro s m s' h hm hs
  exact ⟨textsKept_step h hm hs, calm_step h hm hs⟩

/-- The transcript of a meeting. -/
def minutes : Texts := ⟨some "Bonjour", none, some "[]", some "> Bonjour"⟩

/-- An upload that was transcribed. -/
def minuted : List Move :=
  [.act (.create 0 (.upload "audio.mp4") "sub" 0) .empty, .act (.finish 0 .completed) minutes]

theorem calm_minuted : ∃ s, run (keptStep .standard) .start minuted = some s ∧ s.Calm 0 ∧
    s.texts 0 = minutes := by
  refine ⟨_, rfl, ⟨?_, ?_, ?_, ?_⟩, rfl⟩
  · intro hnone
    cases hnone
  · rintro c (hphase | htodo)
    · cases hphase
    · cases htodo
  · intro p pipe hp
    have hupdated : Function.update (Function.update (fun _ => none) 0 (some ⟨0, true⟩)) 0 none p
        = some pipe := hp
    by_cases hp0 : p = 0
    · rw [hp0, Function.update_self] at hupdated
      cases hupdated
    · rw [Function.update_of_ne hp0, Function.update_of_ne hp0] at hupdated
      cases hupdated
  · intro q r hr
    cases hr

/-- A reprocess of ten minutes, edited after four, with two ticks that find nothing. -/
def edited : List Move :=
  [.act (.ask 0 .reprocess 0 "sub") .empty, .act (.answer 0) .empty, .act (.wait 240) .empty,
    .act (.scan 1 .watchdog []) .empty, .act (.edit 0) minutes, .act (.wait 290) .empty,
    .act (.scan 1 .watchdog []) .empty, .act (.chain 0 .completed) .empty]

theorem edited_texts_kept : ∃ s t, run (keptStep .standard) .start minuted = some s ∧
    run (keptStep .standard) s edited = some t ∧
    Along (keptStep .standard) (TextsKept 0) s edited := by
  obtain ⟨s, hs, hcalm, -⟩ := calm_minuted
  obtain ⟨t, ht⟩ : ∃ t, run (keptStep .standard) s edited = some t := by
    cases hs
    exact ⟨_, rfl⟩
  refine ⟨s, t, hs, ht, texts_kept hcalm ?_⟩
  cases hs
  refine guarded_cons _ ?_ rfl (guarded_cons _ trivial rfl (guarded_cons _ trivial rfl
    (guarded_cons _ ?_ rfl (guarded_cons _ trivial rfl (guarded_cons _ trivial rfl
      (guarded_cons _ ?_ rfl (guarded_cons _ trivial rfl trivial)))))))
  · rintro ⟨h, -⟩
    cases h
  · exact List.not_mem_nil
  · exact List.not_mem_nil

/-- Nobody writes the texts of row `a`, or asks to make them anew. -/
def Move.Untouched (a : Nat) : Move → Prop
  | .act (.ask _ action b _) _ => ¬ (action = .fullReprocess ∧ b = a)
  | .act (.mcr b _) _ => b ≠ a
  | .act (.edit b) _ => b ≠ a
  | _ => True

/-- A reprocess of five minutes, and a tick. -/
def overtaken : List Move :=
  [.act (.ask 0 .reprocess 0 "sub") .empty, .act (.answer 0) .empty, .act (.wait 301) .empty,
    .act (.scan 1 .watchdog [(0, "sub")]) .empty, .act (.tryClaim 1 true) .empty,
    .act (.inspect 1 true) .empty, .act (.load 1) .empty, .act (.commit 1 .found true) .empty]

/-- **A reprocess of more than five minutes erases the transcript**: the watchdog takes the row for
a pipeline that has died. -/
theorem reprocess_erases : ¬ ∀ (s t : Kept) (ms : List Move), s.Calm 0 →
    (∀ m ∈ ms, m.Untouched 0) → run (keptStep .standard) s ms = some t →
      t.texts 0 = s.texts 0 := by
  intro h
  obtain ⟨s, hs, hcalm, htexts⟩ := calm_minuted
  have huntouched : ∀ m ∈ overtaken, m.Untouched 0 := by
    simp [overtaken, Move.Untouched]
  obtain ⟨t, ht, herased⟩ : ∃ t, run (keptStep .standard) s overtaken = some t ∧
      t.texts 0 = .empty := by
    cases hs
    exact ⟨_, rfl, rfl⟩
  have hkept := h s t overtaken hcalm huntouched ht
  rw [herased, htexts] at hkept
  cases hkept

end MesReunions.Watchdog
