import MesReunions.Watchdog.Texts

/-!
# What a tick condemns

`_reset_and_resubmit_kevent_pipeline` gives a row up when it has no `stored_filename`, or when its
object has left S3: `_persist_terminal_error`, with a kind that no scan takes again. It looks at
nothing else, while `materialize_external_source` creates rows without an audio, with a transcript
and a chain of LLM steps on it.

* `Condemns` — the row gets one of the two kinds.
* `Move.Harmless` — a tick finds no row without an audio that has anything to lose.
* **`none_condemned`** — in such runs a tick gives up only rows with nothing left.
* **`subtitles_condemned`** — a chain of more than five minutes on a subtitle import, and one tick.
-/

namespace MesReunions.Watchdog

open TSys

variable {cfg : Config} {s s' : Kept} {m : Move} {act : Act} {given : Texts} {a c : Nat}

/-! ## Statements -/

/-- The action is one of a tick: a commit of its `scan_and_resume`, or the sweep. -/
def World.Tick (s : World) : Act → Prop
  | .commit c _ _ => (s.calls c).caller = .watchdog
  | .markCapped => True
  | _ => False

/-- The row gets a kind of error that is not tried again. -/
def Condemns (r r' : Row) : Prop :=
  r'.lastErrorKind ≠ r.lastErrorKind ∧
    (r'.lastErrorKind = some .s3NoAudioPath ∨ r'.lastErrorKind = some .s3ObjectPurged)

/-- A tick gives up only rows with nothing left, and fails no import of subtitles. -/
def NoneCondemned (s : Kept) (m : Move) (s' : Kept) : Prop :=
  match m with
  | .act act _ => s.world.Tick act → ∀ a, ∀ r ∈ s.world.rows a, ∀ r' ∈ s'.world.rows a,
      (Condemns r r' → s.Bare a) ∧
      (r.storedFilename = "" → (s.texts a).hasTranscript = true →
        r'.transcriptionStatus = .keventFailed → r.transcriptionStatus = .keventFailed)
  | .lost _ => True

/-- The row has an audio, and had one when run `c` loaded it. -/
structure World.Voiced (s : World) (c a : Nat) : Prop where
  row : ∀ r ∈ s.rows a, r.storedFilename ≠ ""
  loaded : ∀ path r, (s.calls c).phase = .loaded a path r → r.storedFilename ≠ ""

/-- The action brings row `a` a transcript, a chain or a pipeline. -/
def Kept.Brings (s : Kept) (act : Act) (given : Texts) (a : Nat) : Prop :=
  s.world.chains act = some a ∨
  (∃ t, s.stores given act = some (a, t) ∧ t.hasTranscript = true) ∨
  ∃ pipe, s.world.Launches act pipe ∧ pipe.audio = a

/-- What a tick finds without an audio is bare and stays so while it has it in hand. -/
def Act.Harmless (cfg : Config) (s : Kept) (act : Act) : Prop :=
  match act with
  | .scan _ .watchdog found =>
      ∀ x ∈ found, ∀ r ∈ s.world.rows x.1, r.storedFilename = "" → s.Bare x.1
  | .commit c .purged true => (s.world.calls c).caller = .watchdog →
      ∀ a r, (s.world.calls c).phase = .loaded a .kevent r → s.Bare a
  | .markCapped => ∀ a, ∀ r ∈ s.world.rows a, r.storedFilename = "" →
      (s.texts a).hasTranscript = true → r.overCap cfg s.world.now = false
  | .mcr _ (.audio name) => name ≠ ""
  | _ => True

def Move.Harmless (cfg : Config) (s : Kept) : Move → Prop
  | .act act given => act.Harmless cfg s ∧ ∀ a, s.Brings act given a →
      ∀ c, (s.world.calls c).caller = .watchdog → s.world.InHand c a → s.world.Voiced c a
  | .lost _ => True

/-! ## Bare rows -/

/-- An action that is not about a transcript. -/
theorem not_brings (hchains : s.world.chains act = none) (hstores : s.stores given act = none)
    (hlaunches : ∀ pipe, ¬ s.world.Launches act pipe) : ¬ s.Brings act given a := by
  rintro (h | ⟨t, h, -⟩ | ⟨pipe, h, -⟩)
  · rw [hchains] at h
    cases h
  · rw [hstores] at h
    cases h
  · exact hlaunches pipe h

/-- No transcript is made by a reset, or by what is stored on other rows. -/
theorem hasTranscript_nextTexts (h : (s.texts a).hasTranscript = false)
    (hstores : ∀ t, s.stores given act = some (a, t) → t.hasTranscript = false) :
    (s.nextTexts act given a).hasTranscript = false := by
  unfold Kept.nextTexts
  cases hclears : s.world.clears act with
  | some b =>
      dsimp only
      by_cases hab : a = b
      · subst hab
        rw [Function.update_self]
        exact hasTranscript_reset h
      · rw [Function.update_of_ne hab]
        exact h
  | none =>
      dsimp only
      cases hst : s.stores given act with
      | some stored =>
          obtain ⟨b, t⟩ := stored
          dsimp only
          by_cases hab : a = b
          · subst hab
            rw [Function.update_self]
            exact hstores t hst
          · rw [Function.update_of_ne hab]
            exact h
      | none => exact h

theorem nextChains_zero (h : s.chains a = 0) (hstarts : s.world.chains act ≠ some a) :
    s.nextChains act a = 0 := by
  cases hb : s.world.chains act with
  | some b =>
      have hab : a ≠ b := fun hab => hstarts (by rw [hb, hab])
      cases act with
      | chain b e => cases hb
      | _ =>
          simp only [Kept.nextChains, hb]
          exact (Function.update_of_ne hab ..).trans h
  | none =>
      cases act with
      | chain b e =>
          by_cases hab : a = b
          · subst hab
            exact (Function.update_self ..).trans (by rw [h])
          · exact (Function.update_of_ne hab ..).trans h
      | _ =>
          simp only [Kept.nextChains, hb]
          exact h

/-- A row stays bare until something is brought. -/
theorem bare_act (h : s.Bare a) (hbrings : ¬ s.Brings act given a)
    (hs : keptStep cfg s (.act act given) = some s') : s'.Bare a := by
  obtain ⟨hstep, htexts, hchains⟩ := keptStep_act hs
  refine ⟨?_, ?_, ?_⟩
  · rw [htexts]
    refine hasTranscript_nextTexts h.texts fun t hstores => ?_
    rw [← Bool.not_eq_true]
    exact fun ht => hbrings (.inr (.inl ⟨t, hstores, ht⟩))
  · rw [hchains]
    exact nextChains_zero h.chains fun hstarts => hbrings (.inl hstarts)
  · intro p pipe hp
    rcases pipe_step hstep hp with hold | hlaunch
    · exact h.pipes p pipe hold
    · exact fun ha => hbrings (.inr (.inr ⟨pipe, hlaunch, ha⟩))

/-- So it does when the process of a chain dies. -/
theorem bare_lost {b : Nat} (h : s.Bare a) (hs : keptStep cfg s (.lost b) = some s') :
    s'.Bare a := by
  obtain ⟨hpos, rfl⟩ := keptStep_lost hs
  refine ⟨h.texts, ?_, h.pipes⟩
  have hab : a ≠ b := by
    intro hab
    rw [← hab, h.chains] at hpos
    exact absurd hpos (by decide)
  exact (Function.update_of_ne hab ..).trans h.chains

/-! ## Rows with an audio -/

/-- What is written on a row keeps its audio; only the importer gives one. -/
theorem storedFilename_step {t t' : World} {r r' : Row} (hs : step cfg t act = some t')
    (hr : t.rows a = some r) (hr' : t'.rows a = some r') :
    r'.storedFilename = r.storedFilename ∨ act = .mcr a (.audio r'.storedFilename) := by
  -- The row that is written is `f r`.
  have hwritten : ∀ {f : Row → Row}, t'.rows = (t.modify a f).rows →
      r' = f r := by
    intro f hrows
    rw [hrows] at hr'
    simp only [World.modify, hr] at hr'
    rw [setRow_self] at hr'
    exact (Option.some.inj hr').symm
  have hset : ∀ {x : Row}, t'.rows = (t.setRow a x).rows → r' = x := by
    intro x hrows
    rw [hrows, setRow_self] at hr'
    exact (Option.some.inj hr').symm
  have hsame : t'.rows a = t.rows a → r' = r := by
    intro hrows
    rw [hrows, hr] at hr'
    exact (Option.some.inj hr').symm
  by_cases hcap : act = .markCapped
  · subst hcap
    cases hs
    simp only [markCappedAsFailed, hr, Option.map_some, Option.some.injEq] at hr'
    subst hr'
    split <;> exact .inl rfl
  by_cases htarget : t.target act = some a
  · cases act with
    | create b src userSub p =>
        cases htarget
        simp [step, hr] at hs
    | tryClaim d ok =>
        simp only [World.target, Option.map_eq_some_iff] at htarget
        obtain ⟨x, hx, rfl⟩ := htarget
        simp only [step] at hs
        split at hs
        · rename_i b userSub rest hphase htodo
          rw [htodo] at hx
          cases hx
          rw [hr] at hs
          dsimp only at hs
          split at hs
          · cases hs
            rw [hset rfl]
            exact .inl rfl
          · cases hs
            rw [hsame rfl]
            exact .inl rfl
        · cases hs
    | commit d probe ok =>
        simp only [World.target] at htarget
        simp only [step] at hs
        split at hs
        · rename_i b path loaded hphase
          rw [hphase] at htarget
          cases htarget
          rw [hr] at hs
          dsimp only at hs
          split at hs
          · split at hs
            · cases hs
              rw [hset rfl]
              exact .inl rfl
            · cases hs
              rw [hwritten rfl]
              exact .inl rfl
            · cases hs
              rw [hsame rfl]
              exact .inl rfl
          · cases hs
            rw [hsame rfl]
            exact .inl rfl
        · cases hs
    | answer q =>
        simp only [World.target, Option.map_eq_some_iff] at htarget
        obtain ⟨x, hx, rfl⟩ := htarget
        simp only [step] at hs
        split at hs
        · rename_i action b loaded hq
          rw [hq] at hx
          cases hx
          rw [hr] at hs
          cases hs
          rw [hset rfl]
          cases action <;> exact .inl rfl
        · cases hs
    | progress p g =>
        simp only [World.target, Option.map_eq_some_iff] at htarget
        obtain ⟨x, hx, rfl⟩ := htarget
        simp only [step, hx] at hs
        cases hs
        rw [hwritten rfl]
        exact .inl rfl
    | poll p =>
        simp only [World.target, Option.map_eq_some_iff] at htarget
        obtain ⟨x, hx, rfl⟩ := htarget
        simp only [step, hx] at hs
        cases hs
        rw [hwritten rfl]
        exact .inl rfl
    | finish p e =>
        simp only [World.target, Option.map_eq_some_iff] at htarget
        obtain ⟨x, hx, rfl⟩ := htarget
        simp only [step, hx] at hs
        cases hs
        rw [hwritten rfl]
        unfold Row.ended
        split <;> exact .inl rfl
    | chain b e =>
        cases htarget
        cases hs
        rw [hwritten rfl]
        exact .inl rfl
    | mcr b work =>
        cases htarget
        simp only [step] at hs
        split at hs
        · cases hs
          rw [hwritten rfl]
          cases work with
          | requeue =>
              unfold Row.mcrWork
              dsimp only
              split <;> exact .inl rfl
          | audio name => exact .inr rfl
          | _ => exact .inl rfl
        · cases hs
    | edit b =>
        cases htarget
        cases hs
        rw [hwritten rfl]
        exact .inl rfl
    | _ => cases htarget
  · rw [hsame (rows_step hs htarget hcap)]
    exact .inl rfl

/-! ## What a tick has in hand -/

/-- What a run of the loop has in hand is bare, unless it has an audio. -/
def Watched (s : Kept) : Prop :=
  ∀ c a, (s.world.calls c).caller = .watchdog → s.world.InHand c a →
    s.world.rows a ≠ none ∧ (s.Bare a ∨ s.world.Voiced c a)

theorem watched_start : Watched .start := by
  rintro c a - (hphase | htodo)
  · cases hphase
  · cases htodo

/-- A row keeps its audio, and a run that has it in hand loads it with that. -/
theorem voiced_step {t t' : World} (hs : step cfg t act = some t') (hrow : t.rows a ≠ none)
    (hnamed : ∀ b name, act = .mcr b (.audio name) → name ≠ "") (h : t.Voiced c a) :
    t'.Voiced c a := by
  obtain ⟨r, hr⟩ := Option.ne_none_iff_exists'.mp hrow
  refine ⟨?_, ?_⟩
  · intro r' hr'
    rcases storedFilename_step hs hr hr' with hsame | hact
    · rw [hsame]
      exact h.row r hr
    · exact hnamed a _ hact
  · intro path x hx
    rcases loaded_step hs hx with hold | hnow
    · exact h.loaded path x hold
    · exact h.row x hnow

theorem watched_step (h : Watched s) (hm : m.Harmless cfg s) (hs : keptStep cfg s m = some s') :
    Watched s' := by
  intro c a hcaller hhand
  cases m with
  | lost b =>
      have hworld : s'.world = s.world := by
        rw [(keptStep_lost hs).2]
      rw [hworld] at hcaller hhand ⊢
      obtain ⟨hrow, hbare⟩ := h c a hcaller hhand
      exact ⟨hrow, hbare.imp (fun hbare => bare_lost hbare hs) id⟩
  | act act given =>
      obtain ⟨hharmless, hbrings⟩ := hm
      have hstep := (keptStep_act hs).1
      have hnamed : ∀ b name, act = .mcr b (.audio name) → name ≠ "" := by
        rintro b name rfl
        exact hharmless
      rcases inHand_step hstep hhand with ⟨hold, hsame⟩ | ⟨caller, found, rfl, hfound, hsame⟩
      · rw [hsame] at hcaller
        obtain ⟨hrow, hbare⟩ := h c a hcaller hold
        refine ⟨rows_some hstep hrow, ?_⟩
        by_cases hb : s.Brings act given a
        · exact .inr (voiced_step hstep hrow hnamed (hbrings a hb c hcaller hold))
        · rcases hbare with hbare | hvoiced
          · exact .inl (bare_act hbare hb hs)
          · exact .inr (voiced_step hstep hrow hnamed hvoiced)
      · -- What a scan has just found is as the guard wants it.
        rw [hcaller] at hsame
        subst hsame
        obtain ⟨x, hx, rfl⟩ := List.mem_map.mp hfound
        obtain ⟨hrows, hworld⟩ := scan_step hstep
        obtain ⟨r, hr, -⟩ := hrows x hx
        refine ⟨rows_some hstep (by rw [hr]; exact nofun), ?_⟩
        by_cases hname : r.storedFilename = ""
        · have hb : ¬ s.Brings (.scan c .watchdog found) given x.1 := not_brings rfl rfl fun _ => id
          exact .inl (bare_act (hharmless x hx r hr hname) hb hs)
        · refine .inr ⟨?_, ?_⟩
          · intro r' hr'
            rw [hworld] at hr'
            rw [show r = r' from Option.some.inj (hr.symm.trans hr')] at hname
            exact hname
          · intro path l hl
            rw [hworld, setCall_self] at hl
            cases hl

/-! ## What a tick writes -/

/-- A loaded row is given up for its missing audio. -/
theorem resolve_terminal {path : Path} {loaded : Row} {probe : Probe} {kind : ErrorKind}
    (h : resolve path loaded probe = .terminal kind) :
    path = .kevent ∧ (loaded.storedFilename = "" ∨ probe = .purged) := by
  cases path with
  | mcr => cases h
  | kevent =>
      refine ⟨rfl, ?_⟩
      by_cases hname : loaded.storedFilename = ""
      · exact .inl hname
      · simp only [resolve, if_neg hname] at h
        cases probe with
        | purged => exact .inr rfl
        | _ => cases h

/-- The pipeline of a resubmission writes other kinds. -/
theorem not_condemns_ended {r : Row} {now : Nat} {upload : Bool} {e : End} :
    ¬ Condemns r (r.ended now upload e) := by
  rintro ⟨hne, hkind⟩
  unfold Row.ended at hne hkind
  cases e with
  | completed => rcases hkind with hkind | hkind <;> cases hkind
  | partially => rcases hkind with hkind | hkind <;> cases hkind
  | clientUnavailable => rcases hkind with hkind | hkind <;> cases hkind
  | authFailed => rcases hkind with hkind | hkind <;> cases hkind
  | applicative => rcases hkind with hkind | hkind <;> cases hkind
  | chainPartial message =>
      cases message with
      | true => rcases hkind with hkind | hkind <;> cases hkind
      | false => exact hne rfl
  | unassisted diarized => exact hne rfl
  | raised =>
      cases upload with
      | true => exact hne rfl
      | false => rcases hkind with hkind | hkind <;> cases hkind
  | lost => exact hne rfl

/-- What a commit does to its row, where it does anything. -/
theorem commit_step {t t' : World} {probe : Probe} {ok : Bool} {r r' : Row}
    (hs : step cfg t (.commit c probe ok) = some t') (hr : t.rows a = some r)
    (hr' : t'.rows a = some r') (hne : r' ≠ r) :
    ∃ path loaded, (t.calls c).phase = .loaded a path loaded ∧ ok = true ∧
      (r' = r.resetTo loaded t.now path.status ∨
        ∃ kind, resolve path loaded probe = .terminal kind ∧
          r' = r.persistTerminalError loaded t.now kind) := by
  have hcommit := hs
  simp only [step] at hs
  split at hs
  · rename_i b path loaded hphase
    by_cases hab : a = b
    · subst hab
      refine ⟨path, loaded, hphase, ?_⟩
      split at hs
      · rename_i hok
        refine ⟨hok, ?_⟩
        split at hs
        · rw [hr] at hs
          cases hs
          exact .inl (Option.some.inj ((setRow_self t a _).symm.trans hr')).symm
        · rename_i kind hres
          cases hs
          refine .inr ⟨kind, hres, ?_⟩
          simp only [World.modify, hr, setCall_rows, setRow_self, Option.some.injEq] at hr'
          exact hr'.symm
        · cases hs
          exact absurd (Option.some.inj (hr'.symm.trans hr)) hne
      · cases hs
        exact absurd (Option.some.inj (hr'.symm.trans hr)) hne
    · have hsame : t'.rows a = t.rows a := by
        refine rows_step hcommit ?_ ?_
        · simp only [World.target, hphase, Phase.audio, ne_eq, Option.some.injEq]
          exact fun h => hab h.symm
        · intro hcapped
          cases hcapped
      rw [hsame, hr] at hr'
      exact absurd (Option.some.inj hr').symm hne
  · cases hs

theorem noneCondemned_step (h : Watched s) (hm : m.Harmless cfg s)
    (hs : keptStep cfg s m = some s') : NoneCondemned s m s' := by
  cases m with
  | lost b => trivial
  | act act given =>
      obtain ⟨hharmless, -⟩ := hm
      have hstep := (keptStep_act hs).1
      intro htick a r hr r' hr'
      cases act with
      | commit c probe ok =>
          by_cases hne : r' = r
          · subst hne
            exact ⟨fun hcond => absurd rfl hcond.1, fun _ _ hfailed => hfailed⟩
          · obtain ⟨path, loaded, hphase, rfl, hwrite⟩ := commit_step hstep hr hr' hne
            rcases hwrite with rfl | ⟨kind, hres, rfl⟩
            · -- A reset keeps the kind of error, and its status is not final.
              refine ⟨fun hcond => absurd rfl hcond.1, fun _ _ hfailed => ?_⟩
              rcases written_eq loaded.transcriptionStatus path.status r.transcriptionStatus
                with hw | hw
              · rw [show (r.resetTo loaded s.world.now path.status).transcriptionStatus
                  = path.status from hw] at hfailed
                cases path <;> cases hfailed
              · exact hw.symm.trans hfailed
            · have hbare : s.Bare a := by
                obtain ⟨rfl, hname | rfl⟩ := resolve_terminal hres
                · have hhand : s.world.InHand c a := .inl (by rw [hphase]; rfl)
                  rcases (h c a htick hhand).2 with hbare | hvoiced
                  · exact hbare
                  · exact absurd hname (hvoiced.loaded _ loaded hphase)
                · exact hharmless htick a loaded hphase
              refine ⟨fun _ => hbare, fun _ htranscript => ?_⟩
              rw [hbare.texts] at htranscript
              cases htranscript
      | markCapped =>
          have hworld : s'.world = { s.world with
              rows := markCappedAsFailed cfg s.world.rows s.world.now } :=
            (Option.some.inj hstep).symm
          rw [Option.mem_def] at hr hr'
          rw [hworld] at hr'
          simp only [markCappedAsFailed, hr, Option.map_some, Option.some.injEq] at hr'
          subst hr'
          split
          · rename_i hcap
            refine ⟨?_, fun hname htranscript => ?_⟩
            · rintro ⟨-, hkind | hkind⟩ <;> cases hkind
            · rw [hharmless a r hr hname htranscript] at hcap
              cases hcap
          · exact ⟨fun hcond => absurd rfl hcond.1, fun _ _ hfailed => hfailed⟩
      | _ => exact absurd htick id

/-- **Only what is lost is given up.** Where each row without an audio that a tick finds is bare,
nothing is brought to such a row while the tick has it in hand, no audio has left S3 of a row with
anything to lose and no import of subtitles has used up its versions, a tick marks only bare rows
as beyond recovery. -/
theorem none_condemned {ms : List Move}
    (hharmless : Guarded (keptStep cfg) (fun s m => m.Harmless cfg s) .start ms) :
    Along (keptStep cfg) NoneCondemned .start ms := by
  refine along_of_guarded (keptStep cfg) Watched ?_ watched_start hharmless
  intro s m s' h hm hs
  exact ⟨noneCondemned_step h hm hs, watched_step h hm hs⟩

/-- Subtitles. -/
def subtitles : Texts := ⟨some "Bonjour", none, none, none⟩

/-- An import of subtitles whose chain ends in time, and a MCR import that the importer never took
up; resuming the latter, the read of its path fails. -/
def givenUp : List Move :=
  [.act (.create 0 .mcrImport "sub" 0) .empty, .act (.create 1 .materialize "sub" 0) subtitles,
    .act (.wait 200) .empty, .act (.chain 1 .completed) .empty, .act (.wait 101) .empty,
    .act (.scan 0 .watchdog [(0, "sub")]) .empty, .act (.tryClaim 0 true) .empty,
    .act (.inspect 0 false) .empty, .act (.load 0) .empty, .act (.commit 0 .found true) .empty]

theorem givenUp_none_condemned : ∃ t, run (keptStep .standard) .start givenUp = some t ∧
    Along (keptStep .standard) NoneCondemned .start givenUp := by
  obtain ⟨t, ht⟩ : ∃ t, run (keptStep .standard) .start givenUp = some t := ⟨_, rfl⟩
  refine ⟨t, ht, none_condemned ?_⟩
  have hidle : ∀ (w : World) (c a : Nat), w.calls = World.start.calls → ¬ w.InHand c a := by
    rintro w c a hcalls (hphase | htodo)
    · rw [hcalls] at hphase
      cases hphase
    · rw [hcalls] at htodo
      cases htodo
  have hquiet : ∀ {s : Kept} {act : Act} {given : Texts}, s.world.chains act = none →
      s.stores given act = none → (∀ pipe, ¬ s.world.Launches act pipe) →
      ∀ a, s.Brings act given a → ∀ c, (s.world.calls c).caller = .watchdog →
        s.world.InHand c a → s.world.Voiced c a :=
    fun hchains hstores hlaunches a hb => absurd hb (not_brings hchains hstores hlaunches)
  refine guarded_cons _ ⟨trivial, fun a _ c _ hc => absurd hc (hidle _ c a rfl)⟩ rfl ?_
  refine guarded_cons _ ⟨trivial, fun a _ c _ hc => absurd hc (hidle _ c a rfl)⟩ rfl ?_
  refine guarded_cons _ ⟨trivial, hquiet rfl rfl fun _ => id⟩ rfl ?_
  refine guarded_cons _ ⟨trivial, hquiet rfl rfl fun _ => id⟩ rfl ?_
  refine guarded_cons _ ⟨trivial, hquiet rfl rfl fun _ => id⟩ rfl ?_
  refine guarded_cons _ ⟨?_, hquiet rfl rfl fun _ => id⟩ rfl ?_
  · intro x hx r _ _
    rw [List.mem_singleton.mp hx]
    exact ⟨rfl, rfl, fun p pipe hp => by cases hp⟩
  refine guarded_cons _ ⟨trivial, hquiet rfl rfl fun _ => id⟩ rfl ?_
  refine guarded_cons _ ⟨trivial, hquiet rfl rfl fun _ => id⟩ rfl ?_
  refine guarded_cons _ ⟨trivial, hquiet rfl rfl fun _ => id⟩ rfl ?_
  exact guarded_cons _ ⟨trivial, hquiet rfl rfl fun _ => id⟩ rfl trivial

/-- An import of subtitles whose chain takes more than five minutes, and a tick. -/
def overlong : List Move :=
  [.act (.create 0 .materialize "sub" 0) subtitles, .act (.wait 301) .empty,
    .act (.scan 0 .watchdog [(0, "sub")]) .empty, .act (.tryClaim 0 true) .empty,
    .act (.inspect 0 true) .empty, .act (.load 0) .empty, .act (.commit 0 .found true) .empty]

/-- **A chain of more than five minutes condemns an import of subtitles**: no audio was ever stored
for it, and the tick looks for one. -/
theorem subtitles_condemned : ¬ ∀ (ms : List Move) (t : Kept),
    run (keptStep .standard) .start ms = some t →
      Along (keptStep .standard) NoneCondemned .start ms := by
  intro h
  obtain ⟨t, ht⟩ : ∃ t, run (keptStep .standard) .start overlong = some t := ⟨_, rfl⟩
  obtain ⟨u, hu⟩ : ∃ u, run (keptStep .standard) .start overlong.dropLast = some u := ⟨_, rfl⟩
  have hlast : keptStep .standard u (.act (.commit 0 .found true) .empty) = some t := by
    cases hu
    exact ht
  have hnone : NoneCondemned u (.act (.commit 0 .found true) .empty) t :=
    along_last (keptStep .standard) (h overlong t ht) hu hlast
  cases hu
  cases hlast
  have hkept := (hnone rfl 0 _ rfl _ rfl).2 rfl rfl rfl
  cases hkept

end MesReunions.Watchdog
