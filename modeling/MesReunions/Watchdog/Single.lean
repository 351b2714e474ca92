import MesReunions.Watchdog.Lease

/-!
# One pipeline per row

What keeps two pipelines off a row is the staleness of `last_activity_at`, the lease of a
claim, and that a claim is taken once. None of them looks at the pipelines that run.

* `Orderly` — pipelines keep their heartbeat, runs start what they found within the lease
  of their scan, and the manual actions come for a row at rest.
* **`single_of_orderly`** — then a row has one pipeline at most.
* **`two_by_hand`** — `full-reprocess` alone gives a row two.
-/

namespace MesReunions.Watchdog

open TSys

/-- No two pipelines for one row. -/
def Single (s : World) : Prop :=
  ∀ p q x y, s.pipes p = some x → s.pipes q = some y → x.audio = y.audio → p = q

/-- The row has no pipeline. -/
def World.Unpiped (s : World) (a : Nat) : Prop := ∀ p x, s.pipes p = some x → x.audio ≠ a

/-- `full_reprocess_audio` is not at the row. -/
def World.Unasked (s : World) (a : Nat) : Prop :=
  ∀ q req, s.requests q = some req → req.action = .fullReprocess → req.audio ≠ a

/-- No run of `scan_and_resume` in time has the row in hand. -/
def World.Unhanded (cfg : Config) (s : World) (a : Nat) : Prop :=
  ∀ c, (s.calls c).InTime cfg s.now → (s.calls c).phase.audio ≠ some a

/-- No run in time has found the row and not come to it. -/
def World.Unlisted (cfg : Config) (s : World) (a : Nat) : Prop :=
  ∀ c userSub, (s.calls c).InTime cfg s.now → (a, userSub) ∉ (s.calls c).todo

/-! ## What is asked of a run -/

/-- Every pipeline has been heard of within the threshold of staleness. -/
def World.Heartbeats (cfg : Config) (s : World) : Prop :=
  ∀ p x r, s.pipes p = some x → s.rows x.audio = some r → r.stale cfg s.now = false

/-- What the actions that do not look at the pipelines rely on. -/
def Orderly (cfg : Config) (s : World) : Act → Prop
  | .scan _ caller found =>
      (∀ x ∈ found, s.Unasked x.1) ∧
      (if caller.includeFailed then ∀ x ∈ found, s.Unpiped x.1 else s.Heartbeats cfg)
  | .tryClaim c _ => (s.calls c).InTime cfg s.now
  | .commit c _ _ => (s.calls c).InTime cfg s.now
  | .submit c _ => (s.calls c).InTime cfg s.now
  | .markCapped => s.Heartbeats cfg ∧
      ∀ a r, s.rows a = some r → r.overCap cfg s.now = true → s.Unhanded cfg a
  | .ask _ .fullReprocess a _ =>
      s.Unpiped a ∧ s.Unasked a ∧ s.Unhanded cfg a ∧ s.Unlisted cfg a
  | _ => True

/-! ## Rows that threads know are there -/

structure Known (s : World) : Prop where
  pipe : ∀ p x, s.pipes p = some x → s.rows x.audio ≠ none
  hand : ∀ c a, (s.calls c).phase.audio = some a → s.rows a ≠ none
  todo : ∀ c x, x ∈ (s.calls c).todo → s.rows x.1 ≠ none
  request : ∀ q req, s.requests q = some req → s.rows req.audio ≠ none

theorem known_start : Known World.start where
  pipe := fun _ _ h => by cases h
  hand := fun _ _ h => by cases h
  todo := fun _ _ h => absurd h List.not_mem_nil
  request := fun _ _ h => by cases h

/-- No row goes away. -/
theorem rows_of_effect {cfg : Config} {s s' : World} {act : Act} (heff : Effect cfg s act s')
    {a : Nat} (ha : s.rows a ≠ none) : s'.rows a ≠ none := by
  have hset : ∀ b x, (s.setRow b x).rows a ≠ none := by
    intro b x
    by_cases hb : a = b
    · subst hb
      rw [setRow_self]
      exact Option.some_ne_none x
    · rw [setRow_of_ne s b x hb]
      exact ha
  cases heff with
  | created b src userSub p pipes hnone hpipes => exact hset b _
  | claimed c b userSub rest r hphase htodo hr hfree => exact hset b _
  | reset c probe b path loaded r hphase hr hresets => exact hset b _
  | terminal c probe b path loaded r kind hquiet hphase hr => exact hset b _
  | capped => simpa [markCappedAsFailed] using ha
  | answered q action b loaded r hq hr => exact hset b _
  | touched act b r r' pipes hquiet hr hr' hpipes => exact hset b r'
  | _ => exact ha

/-- What threads name after a step they named before it, or it is there now. -/
theorem Known.frame {s s' : World} (h : Known s)
    (hrows : ∀ {a}, s.rows a ≠ none → s'.rows a ≠ none)
    (hpipe : ∀ p x, s'.pipes p = some x → s.pipes p = some x ∨ s'.rows x.audio ≠ none)
    (hcall : ∀ c, (∀ a, (s'.calls c).phase.audio = some a →
        (s.calls c).phase.audio = some a ∨ s'.rows a ≠ none) ∧
      ∀ x ∈ (s'.calls c).todo, x ∈ (s.calls c).todo ∨ s'.rows x.1 ≠ none)
    (hrequest : ∀ q req, s'.requests q = some req →
      (∃ req', s.requests q = some req' ∧ req'.audio = req.audio) ∨ s'.rows req.audio ≠ none) :
    Known s' where
  pipe := by
    intro p x hx
    rcases hpipe p x hx with hold | hthere
    · exact hrows (h.pipe p x hold)
    · exact hthere
  hand := by
    intro c a ha
    rcases (hcall c).1 a ha with hold | hthere
    · exact hrows (h.hand c a hold)
    · exact hthere
  todo := by
    intro c x hx
    rcases (hcall c).2 x hx with hold | hthere
    · exact hrows (h.todo c x hold)
    · exact hthere
  request := by
    intro q req hreq
    rcases hrequest q req hreq with ⟨req', hold, hsame⟩ | hthere
    · rw [← hsame]
      exact hrows (h.request q req' hold)
    · exact hthere

/-- One run goes on with what it had, or with what is there. -/
theorem call_of_update {s s' : World} {c : Nat} {k : Call}
    (hcalls : s'.calls = Function.update s.calls c k)
    (hhand : ∀ a, k.phase.audio = some a →
      (s.calls c).phase.audio = some a ∨ s'.rows a ≠ none)
    (htodo : ∀ x ∈ k.todo, x ∈ (s.calls c).todo ∨ s'.rows x.1 ≠ none) (d : Nat) :
    (∀ a, (s'.calls d).phase.audio = some a →
        (s.calls d).phase.audio = some a ∨ s'.rows a ≠ none) ∧
      ∀ x ∈ (s'.calls d).todo, x ∈ (s.calls d).todo ∨ s'.rows x.1 ≠ none := by
  rw [hcalls]
  by_cases hd : d = c
  · subst hd
    rw [Function.update_self]
    exact ⟨hhand, htodo⟩
  · rw [Function.update_of_ne hd]
    exact ⟨fun _ h => .inl h, fun _ h => .inl h⟩

/-- One request goes on, with the row it had or one that is there. -/
theorem request_of_update {s s' : World} {q : Nat} {o : Option Request}
    (hrequests : s'.requests = Function.update s.requests q o)
    (hnew : ∀ req, o = some req →
      (∃ req', s.requests q = some req' ∧ req'.audio = req.audio) ∨ s'.rows req.audio ≠ none)
    (q' : Nat) (req : Request) (h : s'.requests q' = some req) :
    (∃ req', s.requests q' = some req' ∧ req'.audio = req.audio) ∨ s'.rows req.audio ≠ none := by
  rw [hrequests] at h
  by_cases hq : q' = q
  · subst hq
    rw [Function.update_self] at h
    exact hnew req h
  · rw [Function.update_of_ne hq] at h
    exact .inl ⟨req, h, rfl⟩

/-- A pipeline is as before, or new and of a row that is there. -/
theorem pipe_of_update {s s' : World} {p : Nat} {x : Pipe}
    (hpipes : s'.pipes = s.pipes ∨ s.pipes p = none ∧ s'.pipes = Function.update s.pipes p (some x))
    (hthere : s'.rows x.audio ≠ none) (q : Nat) (y : Pipe) (h : s'.pipes q = some y) :
    s.pipes q = some y ∨ s'.rows y.audio ≠ none := by
  rcases hpipes with hsame | ⟨-, hnew⟩
  · rw [hsame] at h
    exact .inl h
  · rw [hnew] at h
    by_cases hq : q = p
    · subst hq
      rw [Function.update_self] at h
      cases h
      exact .inr hthere
    · rw [Function.update_of_ne hq] at h
      exact .inl h

/-- Pipelines that only end. -/
theorem pipe_of_fewer {s : World} {pipes : Nat → Option Pipe}
    (hpipes : ∀ p, pipes p = s.pipes p ∨ pipes p = none) {p : Nat} {x : Pipe}
    (h : pipes p = some x) : s.pipes p = some x := by
  rcases hpipes p with hsame | hnone
  · rw [← hsame, h]
  · rw [hnone] at h
    cases h

/-- Threads only name rows that are there. -/
theorem known_step {cfg : Config} {s s' : World} {act : Act} (h : Known s)
    (heff : Effect cfg s act s') : Known s' := by
  have hrows : ∀ {a}, s.rows a ≠ none → s'.rows a ≠ none := rows_of_effect heff
  have hpipe : ∀ p x, s.pipes p = some x → s.pipes p = some x ∨ s'.rows x.audio ≠ none :=
    fun p x hx => .inl hx
  have hcall : ∀ c, (∀ a, (s.calls c).phase.audio = some a →
        (s.calls c).phase.audio = some a ∨ s'.rows a ≠ none) ∧
      ∀ x ∈ (s.calls c).todo, x ∈ (s.calls c).todo ∨ s'.rows x.1 ≠ none :=
    fun c => ⟨fun _ ha => .inl ha, fun _ hx => .inl hx⟩
  have hrequest : ∀ q req, s.requests q = some req →
      (∃ req', s.requests q = some req' ∧ req'.audio = req.audio) ∨ s'.rows req.audio ≠ none :=
    fun q req hreq => .inl ⟨req, hreq, rfl⟩
  cases heff with
  | waited d => exact h.frame hrows hpipe hcall hrequest
  | created a src userSub p pipes hnone hpipes =>
      refine h.frame hrows (pipe_of_update hpipes ?_) hcall hrequest
      rw [show ((s.setRow a (src.row userSub s.now)).rows a) = _ from setRow_self ..]
      exact Option.some_ne_none _
  | scanned c caller found hphase htodo hfound =>
      refine h.frame hrows hpipe (call_of_update rfl (fun a ha => by cases ha) ?_) hrequest
      intro x hx
      obtain ⟨r, hr, -⟩ := hfound x hx
      exact .inr (hrows (by rw [hr]; exact Option.some_ne_none r))
  | claimed c a userSub rest r hphase htodo hr hfree =>
      refine h.frame hrows hpipe (call_of_update rfl ?_ ?_) hrequest
      · intro b hb
        cases hb
        exact .inr (hrows (by rw [hr]; exact Option.some_ne_none r))
      · intro x hx
        rw [htodo]
        exact .inl (List.mem_cons_of_mem _ hx)
  | moved act c a phase hact hold hnew huncommitted hload =>
      refine h.frame hrows hpipe (call_of_update rfl ?_ fun _ hx => .inl hx) hrequest
      intro b hb
      rw [show phase.audio = some b from hb] at hnew
      rw [hold, hnew]
      exact .inl rfl
  | freed act c todo hact htodo =>
      exact h.frame hrows hpipe
        (call_of_update rfl (fun _ ha => by cases ha) fun x hx => .inl (htodo x hx)) hrequest
  | reset c probe a path loaded r hphase hr hresets =>
      refine h.frame hrows hpipe (call_of_update rfl ?_ fun _ hx => .inl hx) hrequest
      intro b hb
      cases hb
      exact .inr (hrows (by rw [hr]; exact Option.some_ne_none r))
  | terminal c probe a path loaded r kind hact hphase hr =>
      exact h.frame hrows hpipe
        (call_of_update rfl (fun _ ha => by cases ha) fun x hx => .inl hx) hrequest
  | submitted c p a path pipes hphase hpipes =>
      refine h.frame hrows (pipe_of_update hpipes ?_)
        (call_of_update rfl (fun _ ha => by cases ha) fun x hx => .inl hx) hrequest
      exact hrows (h.hand c a (by rw [hphase]; rfl))
  | capped => exact h.frame hrows hpipe hcall hrequest
  | asked q action a userSub r hq hr =>
      refine h.frame hrows hpipe hcall (request_of_update rfl fun req hreq => ?_)
      cases hreq
      exact .inr (hrows (by rw [hr]; exact Option.some_ne_none r))
  | answered q action a loaded r hq hr =>
      refine h.frame hrows hpipe hcall (request_of_update rfl fun req hreq => ?_)
      split at hreq
      · cases hreq
        exact .inl ⟨_, hq, rfl⟩
      · cases hreq
  | launched q p action a loaded hq hp =>
      exact h.frame hrows (pipe_of_update (.inr ⟨hp, rfl⟩) (hrows (h.request q _ hq))) hcall
        (request_of_update rfl fun req hreq => by cases hreq)
  | dropped act q hact =>
      exact h.frame hrows hpipe hcall (request_of_update rfl fun req hreq => by cases hreq)
  | touched act a r r' pipes hact hr hr' hpipes =>
      exact h.frame hrows (fun p x hx => .inl (pipe_of_fewer hpipes hx)) hcall hrequest
  | unpiped act pipes hact hpipes =>
      exact h.frame hrows (fun p x hx => .inl (pipe_of_fewer hpipes hx)) hcall hrequest

/-! ## The invariant -/

/-- The run `c` has the row in hand, under a claim of after every scan that found it. -/
structure InHand (cfg : Config) (s : World) (c a : Nat) (r : Row) (t : Nat) : Prop where
  row : s.rows a = some r
  claim : r.pipelineClaimAt = some t
  since : (s.calls c).scannedAt ≤ t
  others : ∀ d userSub, (a, userSub) ∈ (s.calls d).todo → (s.calls d).InTime cfg s.now →
    (s.calls d).scannedAt ≤ t
  unpiped : s.Unpiped a
  unasked : s.Unasked a

/-- The claim of a row was taken since `t`. -/
def World.ClaimedSince (s : World) (a t : Nat) : Prop :=
  ∃ r u, s.rows a = some r ∧ r.pipelineClaimAt = some u ∧ t ≤ u

/-- `full_reprocess_audio` is at a row that nobody else is at. -/
structure AskedAlone (cfg : Config) (s : World) (q a : Nat) : Prop where
  unpiped : s.Unpiped a
  unlisted : s.Unlisted cfg a
  alone : ∀ q' req, s.requests q' = some req → req.action = .fullReprocess → req.audio = a → q' = q

structure SingleInv (cfg : Config) (s : World) : Prop where
  known : Known s
  single : Single s
  past : ∀ c, (s.calls c).scannedAt ≤ s.now
  hand : ∀ c a, (s.calls c).phase.audio = some a → (s.calls c).InTime cfg s.now →
    ∃ r t, InHand cfg s c a r t
  alone : ∀ c d a, (s.calls c).phase.audio = some a → (s.calls d).phase.audio = some a →
    (s.calls c).InTime cfg s.now → (s.calls d).InTime cfg s.now → c = d
  piped : ∀ p x c userSub, s.pipes p = some x → (x.audio, userSub) ∈ (s.calls c).todo →
    (s.calls c).InTime cfg s.now → s.ClaimedSince x.audio (s.calls c).scannedAt
  asked : ∀ q req, s.requests q = some req → req.action = .fullReprocess →
    AskedAlone cfg s q req.audio
  committed : ∀ q req, s.requests q = some req → req.committed = true →
    req.action = .fullReprocess

theorem singleInv_start {cfg : Config} : SingleInv cfg World.start where
  known := known_start
  single := fun _ _ _ _ h => by cases h
  past := fun _ => Nat.le_refl _
  hand := fun _ _ h => by cases h
  alone := fun _ _ _ h => by cases h
  piped := fun _ _ _ _ h => by cases h
  asked := fun _ _ h => by cases h
  committed := fun _ _ h => by cases h

/-- How a run goes on without taking another row. -/
structure Trails (k k' : Call) : Prop where
  scannedAt : k'.scannedAt = k.scannedAt
  todo : ∀ x ∈ k'.todo, x ∈ k.todo
  audio : ∀ a, k'.phase.audio = some a → k.phase.audio = some a

theorem trails_refl (k : Call) : Trails k k := ⟨rfl, fun _ h => h, fun _ h => h⟩

theorem trails_update {s : World} {calls : Nat → Call} {c : Nat} {k : Call}
    (hcalls : calls = Function.update s.calls c k) (h : Trails (s.calls c) k) (d : Nat) :
    Trails (s.calls d) (calls d) := by
  subst hcalls
  by_cases hd : d = c
  · subst hd
    rw [Function.update_self]
    exact h
  · rw [Function.update_of_ne hd]
    exact trails_refl _

theorem inTime_of_trails {cfg : Config} {s s' : World} {c : Nat} (hnow : s.now ≤ s'.now)
    (h : Trails (s.calls c) (s'.calls c)) (htime : (s'.calls c).InTime cfg s'.now) :
    (s.calls c).InTime cfg s.now := by
  have hlease := htime.lease
  have hstale := htime.stale
  rw [h.scannedAt] at hlease hstale
  exact ⟨by omega, by omega⟩

/-- **The frame rule.** Claims stay, runs go on with what they had, pipelines and requests for
`full-reprocess` are not added. -/
theorem SingleInv.frame {cfg : Config} {s s' : World} (h : SingleInv cfg s) (hknown : Known s')
    (hnow : s.now ≤ s'.now)
    (hrows : ∀ a r, s.rows a = some r →
      ∃ r', s'.rows a = some r' ∧ r'.pipelineClaimAt = r.pipelineClaimAt)
    (hcalls : ∀ c, Trails (s.calls c) (s'.calls c))
    (hpipes : ∀ p x, s'.pipes p = some x → s.pipes p = some x)
    (hrequests : ∀ q req, s'.requests q = some req → req.action = .fullReprocess →
      ∃ req', s.requests q = some req' ∧ req'.action = .fullReprocess ∧ req'.audio = req.audio)
    (hcommitted : ∀ q req, s'.requests q = some req → req.committed = true →
      req.action = .fullReprocess) : SingleInv cfg s' := by
  have htime : ∀ c, (s'.calls c).InTime cfg s'.now → (s.calls c).InTime cfg s.now :=
    fun c => inTime_of_trails hnow (hcalls c)
  have hunpiped : ∀ a, s.Unpiped a → s'.Unpiped a := fun a ha p x hx => ha p x (hpipes p x hx)
  refine ⟨hknown, fun p q x y hx hy => h.single p q x y (hpipes p x hx) (hpipes q y hy),
    fun c => ?_, ?_, ?_, ?_, ?_, hcommitted⟩
  · rw [(hcalls c).scannedAt]
    exact Nat.le_trans (h.past c) hnow
  · intro c a hc ht
    obtain ⟨r, t, hhand⟩ := h.hand c a ((hcalls c).audio a hc) (htime c ht)
    obtain ⟨r', hr', hclaim⟩ := hrows a r hhand.row
    refine ⟨r', t, hr', hclaim.trans hhand.claim, ?_, ?_, hunpiped a hhand.unpiped, ?_⟩
    · rw [(hcalls c).scannedAt]
      exact hhand.since
    · intro d userSub hmem hd
      rw [(hcalls d).scannedAt]
      exact hhand.others d userSub ((hcalls d).todo _ hmem) (htime d hd)
    · intro q req hreq haction
      obtain ⟨req', hreq', haction', hsame⟩ := hrequests q req hreq haction
      rw [← hsame]
      exact hhand.unasked q req' hreq' haction'
  · intro c d a hc hd htc htd
    exact h.alone c d a ((hcalls c).audio a hc) ((hcalls d).audio a hd) (htime c htc) (htime d htd)
  · intro p x c userSub hx hmem ht
    obtain ⟨r, u, hr, hu, hle⟩ := h.piped p x c userSub (hpipes p x hx) ((hcalls c).todo _ hmem)
      (htime c ht)
    obtain ⟨r', hr', hclaim⟩ := hrows x.audio r hr
    refine ⟨r', u, hr', hclaim.trans hu, ?_⟩
    rw [(hcalls c).scannedAt]
    exact hle
  · intro q req hreq haction
    obtain ⟨req', hreq', haction', hsame⟩ := hrequests q req hreq haction
    have hasked := h.asked q req' hreq' haction'
    rw [hsame] at hasked
    refine ⟨hunpiped _ hasked.unpiped, fun c userSub ht hmem => ?_, fun q' x hx hxa hxsame => ?_⟩
    · exact hasked.unlisted c userSub (htime c ht) ((hcalls c).todo _ hmem)
    · obtain ⟨x', hx', hxa', hxsame'⟩ := hrequests q' x hx hxa
      exact hasked.alone q' x' hx' hxa' (hxsame'.trans hxsame)

/-! ## The steps that add something -/

section Steps

variable {cfg : Config} {s : World}

/-- A row that a run in time has in hand has no free claim. -/
theorem SingleInv.not_hand (h : SingleInv cfg s) {c a : Nat} {r : Row} (hr : s.rows a = some r)
    (hfree : r.claimFree cfg s.now = true) (htime : (s.calls c).InTime cfg s.now) :
    (s.calls c).phase.audio ≠ some a := by
  intro hc
  obtain ⟨r', t, hhand⟩ := h.hand c a hc htime
  have hrow := hhand.row
  rw [hr] at hrow
  cases hrow
  rw [not_free_of_since hhand.claim hhand.since htime] at hfree
  cases hfree

/-- **A pipeline starts** on a row nobody else is at, or can claim. -/
theorem SingleInv.addPipe (h : SingleInv cfg s) {p a : Nat} {upload : Bool}
    (hrow : s.rows a ≠ none) (hunpiped : s.Unpiped a)
    (hunhanded : s.Unhanded cfg a) (hunasked : s.Unasked a)
    (hlisted : ∀ c userSub, (a, userSub) ∈ (s.calls c).todo → (s.calls c).InTime cfg s.now →
      s.ClaimedSince a (s.calls c).scannedAt) :
    SingleInv cfg { s with pipes := Function.update s.pipes p (some ⟨a, upload⟩) } := by
  have hpipes : ∀ q x, Function.update s.pipes p (some ⟨a, upload⟩) q = some x →
      q = p ∧ x.audio = a ∨ s.pipes q = some x := by
    intro q x hx
    by_cases hq : q = p
    · subst hq
      rw [Function.update_self] at hx
      cases hx
      exact .inl ⟨rfl, rfl⟩
    · rw [Function.update_of_ne hq] at hx
      exact .inr hx
  have hunpiped' : ∀ b, b ≠ a → s.Unpiped b →
      ∀ q x, Function.update s.pipes p (some ⟨a, upload⟩) q = some x → x.audio ≠ b := by
    intro b hb hold q x hx
    rcases hpipes q x hx with ⟨-, hxa⟩ | hx
    · rw [hxa]
      exact Ne.symm hb
    · exact hold q x hx
  refine ⟨⟨fun q x hx => ?_, h.known.hand, h.known.todo, h.known.request⟩, ?_, h.past, ?_, h.alone,
    ?_, ?_, h.committed⟩
  · rcases hpipes q x hx with ⟨-, hxa⟩ | hx
    · rw [hxa]
      exact hrow
    · exact h.known.pipe q x hx
  · intro q q' x y hx hy hxy
    rcases hpipes q x hx with ⟨hq, hxa⟩ | hx
    · rcases hpipes q' y hy with ⟨hq', -⟩ | hy
      · rw [hq, hq']
      · exact absurd (hxy.symm.trans hxa) (hunpiped q' y hy)
    · rcases hpipes q' y hy with ⟨-, hya⟩ | hy
      · exact absurd (hxy.trans hya) (hunpiped q x hx)
      · exact h.single q q' x y hx hy hxy
  · intro c b hc ht
    have hb : b ≠ a := by
      rintro rfl
      exact hunhanded c ht hc
    obtain ⟨r, t, hhand⟩ := h.hand c b hc ht
    exact ⟨r, t, hhand.row, hhand.claim, hhand.since, hhand.others,
      hunpiped' b hb hhand.unpiped, hhand.unasked⟩
  · intro q x c userSub hx hmem ht
    rcases hpipes q x hx with ⟨-, hxa⟩ | hx
    · rw [hxa] at hmem ⊢
      exact hlisted c userSub hmem ht
    · exact h.piped q x c userSub hx hmem ht
  · intro q req hreq haction
    have hasked := h.asked q req hreq haction
    exact ⟨hunpiped' _ (hunasked q req hreq haction) hasked.unpiped, hasked.unlisted, hasked.alone⟩

/-- **The rule for a step of one run on one row** that has no pipeline and is in no other hand
in time: the run has it in hand afterwards only under a claim of now. -/
theorem SingleInv.change (h : SingleInv cfg s) {c a : Nat} {r r' : Row} {k : Call}
    (hr : s.rows a = some r) (hknown : Known ((s.setRow a r').setCall c k))
    (hscan : k.scannedAt = (s.calls c).scannedAt) (htodo : ∀ x ∈ k.todo, x ∈ (s.calls c).todo)
    (hothers : ∀ d, d ≠ c → (s.calls d).InTime cfg s.now → (s.calls d).phase.audio ≠ some a)
    (hunpiped : s.Unpiped a)
    (hhand : ∀ b, k.phase.audio = some b → b = a ∧ r'.pipelineClaimAt = some s.now ∧ s.Unasked a) :
    SingleInv cfg ((s.setRow a r').setCall c k) := by
  have hself : ((s.setRow a r').setCall c k).calls c = k := setCall_self ..
  have hother : ∀ d, d ≠ c → ((s.setRow a r').setCall c k).calls d = s.calls d :=
    fun d hd => setCall_of_ne _ c k hd
  have hscan' : ∀ d, (((s.setRow a r').setCall c k).calls d).scannedAt = (s.calls d).scannedAt :=
    scannedAt_setCall (s := s.setRow a r') hscan
  have htodo' : ∀ d x, x ∈ (((s.setRow a r').setCall c k).calls d).todo →
      x ∈ (s.calls d).todo := fun d x => todo_setCall (s := s.setRow a r') htodo
  have htime : ∀ d, (((s.setRow a r').setCall c k).calls d).InTime cfg s.now →
      (s.calls d).InTime cfg s.now := fun d => inTime_setCall (s := s.setRow a r') hscan
  refine ⟨hknown, h.single, fun d => ?_, ?_, ?_, ?_, ?_, h.committed⟩
  · rw [hscan' d]
    exact h.past d
  · intro d b hd ht
    by_cases hdc : d = c
    · subst hdc
      rw [hself] at hd
      obtain ⟨rfl, hclaim, hunasked⟩ := hhand b hd
      refine ⟨r', s.now, setRow_self .., hclaim, ?_, fun e userSub hmem he => ?_, hunpiped, hunasked⟩
      · rw [hscan' d]
        exact h.past d
      · rw [hscan' e]
        exact h.past e
    · rw [hother d hdc] at hd
      have hb : b ≠ a := by
        rintro rfl
        exact hothers d hdc (htime d ht) hd
      obtain ⟨x, t, hold⟩ := h.hand d b hd (htime d ht)
      refine ⟨x, t, (setRow_of_ne s a r' hb).trans hold.row, hold.claim, ?_, ?_, hold.unpiped,
        hold.unasked⟩
      · rw [hscan' d]
        exact hold.since
      · intro e userSub hmem he
        rw [hscan' e]
        exact hold.others e userSub (htodo' e _ hmem) (htime e he)
  · intro d e b hd he htd hte
    -- a run other than `c` in time, beside `c` at the row it has just claimed
    have hlone : ∀ f, f ≠ c → (((s.setRow a r').setCall c k).calls f).phase.audio = some b →
        k.phase.audio = some b → (s.calls f).InTime cfg s.now → False := by
      intro f hfc hf hk ht
      rw [hother f hfc, (hhand b hk).1] at hf
      exact hothers f hfc ht hf
    by_cases hdc : d = c
    · by_cases hec : e = c
      · rw [hdc, hec]
      · rw [hdc, hself] at hd
        exact (hlone e hec he hd (htime e hte)).elim
    · by_cases hec : e = c
      · rw [hec, hself] at he
        exact (hlone d hdc hd he (htime d htd)).elim
      · rw [hother d hdc] at hd
        rw [hother e hec] at he
        exact h.alone d e b hd he (htime d htd) (htime e hte)
  · intro p x d userSub hx hmem ht
    obtain ⟨y, u, hy, hu, hle⟩ := h.piped p x d userSub hx (htodo' d _ hmem) (htime d ht)
    refine ⟨y, u, (setRow_of_ne s a r' (hunpiped p x hx)).trans hy, hu, ?_⟩
    rw [hscan' d]
    exact hle
  · intro q req hreq haction
    have hasked := h.asked q req hreq haction
    exact ⟨hasked.unpiped, fun d userSub ht hmem =>
      hasked.unlisted d userSub (htime d ht) (htodo' d _ hmem), hasked.alone⟩

/-- **A claim.** A run in time that can claim a row it found: nobody is at it. -/
theorem SingleInv.claimed (h : SingleInv cfg s) {c a : Nat} {userSub : String}
    {rest : List (Nat × String)} {r : Row}
    (hknown : Known ((s.setRow a (r.claimed s.now)).setCall c
      { s.calls c with todo := rest, phase := .claimed a userSub }))
    (htodo : (s.calls c).todo = (a, userSub) :: rest) (hr : s.rows a = some r)
    (hfree : r.claimFree cfg s.now = true) (htime : (s.calls c).InTime cfg s.now) :
    SingleInv cfg ((s.setRow a (r.claimed s.now)).setCall c
      { s.calls c with todo := rest, phase := .claimed a userSub }) := by
  have hmem : ∀ x ∈ (a, userSub) :: rest, x ∈ (s.calls c).todo := fun x hx => by rwa [htodo]
  refine h.change hr hknown rfl (fun x hx => hmem x (List.mem_cons_of_mem _ hx))
    (fun d _ hd => h.not_hand hr hfree hd) (fun p x hx hxa => ?_) fun b hb => ?_
  · -- a pipeline that started since the scan has left a claim that runs
    subst hxa
    obtain ⟨y, u, hy, hu, hle⟩ := h.piped p x c userSub hx (hmem _ List.mem_cons_self) htime
    rw [hr] at hy
    cases hy
    rw [not_free_of_since hu hle htime] at hfree
    cases hfree
  · cases hb
    refine ⟨rfl, rfl, fun q req hreq haction hsame => ?_⟩
    have hunlisted := (h.asked q req hreq haction).unlisted c userSub htime
    rw [hsame] at hunlisted
    exact hunlisted (hmem _ List.mem_cons_self)

/-- Nobody but the run that has a row in hand has it in time. -/
theorem SingleInv.alone_of_ne (h : SingleInv cfg s) {c a : Nat}
    (hhand : (s.calls c).phase.audio = some a) (htime : (s.calls c).InTime cfg s.now) :
    ∀ d, d ≠ c → (s.calls d).InTime cfg s.now → (s.calls d).phase.audio ≠ some a :=
  fun d hd ht hw => hd (h.alone d c a hw hhand ht htime)

/-- **A row that cannot be resumed.** -/
theorem SingleInv.terminal (h : SingleInv cfg s) {c a : Nat} {path : Path} {loaded r r' : Row}
    (hknown : Known ((s.setRow a r').setCall c { s.calls c with phase := .next }))
    (hphase : (s.calls c).phase = .loaded a path loaded) (hr : s.rows a = some r)
    (htime : (s.calls c).InTime cfg s.now) :
    SingleInv cfg ((s.setRow a r').setCall c { s.calls c with phase := .next }) := by
  have hhand : (s.calls c).phase.audio = some a := by
    rw [hphase]
    rfl
  obtain ⟨x, t, hold⟩ := h.hand c a hhand htime
  exact h.change hr hknown rfl (fun _ hx => hx) (h.alone_of_ne hhand htime) hold.unpiped
    fun b hb => by cases hb

/-- **A scan.** The rows it finds have no pipeline: it looks at staleness and pipelines are
heard of, or it was asked for and they have none. -/
theorem SingleInv.scanned (h : SingleInv cfg s) {c : Nat} {caller : Caller}
    {found : List (Nat × String)}
    (hknown : Known (s.setCall c ⟨caller, s.now, found, .next⟩))
    (hact : Orderly cfg s (.scan c caller found))
    (hfound : ∀ x ∈ found, ∃ r, s.rows x.1 = some r ∧ r.stuck cfg caller s.now = true) :
    SingleInv cfg (s.setCall c ⟨caller, s.now, found, .next⟩) := by
  have hunpiped : ∀ x ∈ found, s.Unpiped x.1 := by
    intro x hx
    have hcases := hact.2
    split at hcases
    · exact hcases x hx
    · rename_i hno
      intro p y hy hyx
      obtain ⟨r, hr, hstuck⟩ := hfound x hx
      rw [← hyx] at hr
      have hfresh := hcases p y r hy hr
      rw [(stale_of_stuck hstuck).resolve_left hno] at hfresh
      cases hfresh
  have hself : (s.setCall c ⟨caller, s.now, found, .next⟩).calls c =
      ⟨caller, s.now, found, .next⟩ := setCall_self ..
  have hne : ∀ {d a}, ((s.setCall c ⟨caller, s.now, found, .next⟩).calls d).phase.audio = some a →
      d ≠ c := by
    rintro d a hd rfl
    rw [hself] at hd
    cases hd
  refine ⟨hknown, h.single, fun d => ?_, ?_, ?_, ?_, ?_, h.committed⟩
  · by_cases hd : d = c
    · subst hd
      rw [hself]
      exact Nat.le_refl _
    · rw [setCall_of_ne s c _ hd]
      exact h.past d
  · intro d a hd ht
    have hdc := hne hd
    rw [setCall_of_ne s c _ hdc] at hd ht
    obtain ⟨r, t, hold⟩ := h.hand d a hd ht
    refine ⟨r, t, hold.row, hold.claim, ?_, ?_, hold.unpiped, hold.unasked⟩
    · rw [setCall_of_ne s c _ hdc]
      exact hold.since
    · intro e userSub hmem he
      by_cases hec : e = c
      · subst hec
        rw [hself] at hmem
        obtain ⟨x, hx, hstuck⟩ := hfound _ hmem
        exact absurd hd (h.not_hand hx (claimFree_of_stuck hstuck) ht)
      · rw [setCall_of_ne s c _ hec] at hmem he ⊢
        exact hold.others e userSub hmem he
  · intro d e a hd he htd hte
    have hdc := hne hd
    have hec := hne he
    rw [setCall_of_ne s c _ hdc] at hd htd
    rw [setCall_of_ne s c _ hec] at he hte
    exact h.alone d e a hd he htd hte
  · intro p x d userSub hx hmem ht
    by_cases hd : d = c
    · subst hd
      rw [hself] at hmem
      exact absurd rfl (hunpiped _ hmem p x hx)
    · rw [setCall_of_ne s c _ hd] at hmem ht ⊢
      exact h.piped p x d userSub hx hmem ht
  · intro q req hreq haction
    have hasked := h.asked q req hreq haction
    refine ⟨hasked.unpiped, fun d userSub ht hmem => ?_, hasked.alone⟩
    by_cases hd : d = c
    · subst hd
      rw [hself] at hmem
      exact hact.1 _ hmem q req hreq haction rfl
    · rw [setCall_of_ne s c _ hd] at hmem ht
      exact hasked.unlisted d userSub ht hmem

/-- **A start.** The run still has the row in hand. -/
theorem SingleInv.submitted (h : SingleInv cfg s) {c p a : Nat} {path : Path}
    (hknown : Known (s.setCall c { s.calls c with phase := .next }))
    (hphase : (s.calls c).phase = .committed a path) (htime : (s.calls c).InTime cfg s.now) :
    SingleInv cfg ({ s with pipes := Function.update s.pipes p (some ⟨a, false⟩) }.setCall c
      { s.calls c with phase := .next }) := by
  have hhand : (s.calls c).phase.audio = some a := by
    rw [hphase]
    rfl
  obtain ⟨r, t, hold⟩ := h.hand c a hhand htime
  have hscan := scannedAt_setCall (s := s) (c := c) (k := { s.calls c with phase := .next }) rfl
  have h' : SingleInv cfg (s.setCall c { s.calls c with phase := .next }) :=
    h.frame hknown (Nat.le_refl _) (fun b x hx => ⟨x, hx, rfl⟩)
      (trails_update rfl ⟨rfl, fun _ hx => hx, fun b hb => by cases hb⟩) (fun _ _ hx => hx)
      (fun q req hreq haction => ⟨req, hreq, haction, rfl⟩) h.committed
  refine h'.addPipe (a := a) (h.known.hand c a hhand) hold.unpiped ?_ hold.unasked ?_
  · intro d ht hd
    by_cases hdc : d = c
    · subst hdc
      rw [setCall_self] at hd
      cases hd
    · rw [setCall_of_ne s c _ hdc] at hd ht
      exact h.alone_of_ne hhand htime d hdc ht hd
  · intro d userSub hmem ht
    refine ⟨r, t, hold.row, hold.claim, ?_⟩
    rw [hscan d]
    have ht' : (s.calls d).InTime cfg s.now :=
      inTime_setCall (s := s) (c := c) (k := { s.calls c with phase := .next }) rfl ht
    have hmem' : (a, userSub) ∈ (s.calls d).todo :=
      todo_setCall (s := s) (c := c) (k := { s.calls c with phase := .next }) (fun _ hx => hx) hmem
    exact hold.others d userSub hmem' ht'

/-- **The cap.** The rows it takes have no pipeline, and no run in time has them in hand. -/
theorem SingleInv.capped (h : SingleInv cfg s)
    (hknown : Known { s with rows := markCappedAsFailed cfg s.rows s.now })
    (hact : Orderly cfg s .markCapped) :
    SingleInv cfg { s with rows := markCappedAsFailed cfg s.rows s.now } := by
  have hkeep : ∀ a r, s.rows a = some r → r.overCap cfg s.now = false →
      markCappedAsFailed cfg s.rows s.now a = some r := fun a r hr hover => by
    simp [markCappedAsFailed, hr, hover]
  refine ⟨hknown, h.single, h.past, ?_, h.alone, ?_, ?_, h.committed⟩
  · intro c a hc ht
    obtain ⟨r, t, hold⟩ := h.hand c a hc ht
    cases hover : r.overCap cfg s.now with
    | true => exact absurd hc (hact.2 a r hold.row hover c ht)
    | false =>
        exact ⟨r, t, hkeep a r hold.row hover, hold.claim, hold.since, hold.others, hold.unpiped,
          hold.unasked⟩
  · intro p x c userSub hx hmem ht
    obtain ⟨r, u, hr, hu, hle⟩ := h.piped p x c userSub hx hmem ht
    have hover : r.overCap cfg s.now = false := by
      simp [Row.overCap, hact.1 p x r hx hr]
    exact ⟨r, u, hkeep x.audio r hr hover, hu, hle⟩
  · intro q req hreq haction
    have hasked := h.asked q req hreq haction
    exact ⟨hasked.unpiped, hasked.unlisted, hasked.alone⟩

/-- **A request** for a row at rest. -/
theorem SingleInv.asked_step (h : SingleInv cfg s) {q a : Nat} {action : Manual}
    {userSub : String} {r : Row}
    (hknown : Known { s with
      requests := Function.update s.requests q (some ⟨action, a, r, false⟩) })
    (hq : s.requests q = none) (hact : Orderly cfg s (.ask q action a userSub)) :
    SingleInv cfg { s with
      requests := Function.update s.requests q (some ⟨action, a, r, false⟩) } := by
  have hrequests : ∀ q' req, Function.update s.requests q (some ⟨action, a, r, false⟩) q' = some req →
      (q' = q ∧ req = ⟨action, a, r, false⟩) ∨ s.requests q' = some req := by
    intro q' req hreq
    by_cases hqq : q' = q
    · subst hqq
      rw [Function.update_self] at hreq
      cases hreq
      exact .inl ⟨rfl, rfl⟩
    · rw [Function.update_of_ne hqq] at hreq
      exact .inr hreq
  have hrest : action = .fullReprocess →
      s.Unpiped a ∧ s.Unasked a ∧ s.Unhanded cfg a ∧ s.Unlisted cfg a := by
    rintro rfl
    exact hact
  refine ⟨hknown, h.single, h.past, ?_, h.alone, h.piped, ?_, ?_⟩
  · intro c b hc ht
    obtain ⟨x, t, hold⟩ := h.hand c b hc ht
    refine ⟨x, t, hold.row, hold.claim, hold.since, hold.others, hold.unpiped, ?_⟩
    intro q' req hreq haction
    rcases hrequests q' req hreq with ⟨-, rfl⟩ | hreq
    · rintro rfl
      exact (hrest haction).2.2.1 c ht hc
    · exact hold.unasked q' req hreq haction
  · intro q' req hreq haction
    rcases hrequests q' req hreq with ⟨hqq, rfl⟩ | hreq
    · obtain ⟨hunpiped, hunasked, -, hunlisted⟩ := hrest haction
      refine ⟨hunpiped, hunlisted, fun q₂ req₂ hreq₂ haction₂ hsame => ?_⟩
      rcases hrequests q₂ req₂ hreq₂ with ⟨hq₂, -⟩ | hreq₂
      · rw [hq₂, hqq]
      · exact absurd hsame (hunasked q₂ req₂ hreq₂ haction₂)
    · have hasked := h.asked q' req hreq haction
      refine ⟨hasked.unpiped, hasked.unlisted, fun q₂ req₂ hreq₂ haction₂ hsame => ?_⟩
      rcases hrequests q₂ req₂ hreq₂ with ⟨-, rfl⟩ | hreq₂
      · exact absurd hsame.symm ((hrest haction₂).2.1 q' req hreq haction)
      · exact hasked.alone q₂ req₂ hreq₂ haction₂ hsame
  · intro q' req hreq hcommitted
    rcases hrequests q' req hreq with ⟨-, rfl⟩ | hreq
    · cases hcommitted
    · exact h.committed q' req hreq hcommitted

end Steps

/-! ## Every orderly step -/

/-- A request is as it was, or gone. -/
theorem request_of_dropped {s : World} {q q' : Nat} {req : Request}
    (h : Function.update s.requests q none q' = some req) : q' ≠ q ∧ s.requests q' = some req := by
  by_cases hq : q' = q
  · subst hq
    rw [Function.update_self] at h
    cases h
  · rw [Function.update_of_ne hq] at h
    exact ⟨hq, h⟩

/-- **An orderly step keeps one pipeline per row.** -/
theorem singleInv_step {cfg : Config} {s s' : World} {act : Act} (h : SingleInv cfg s)
    (hact : Orderly cfg s act) (heff : Effect cfg s act s') : SingleInv cfg s' := by
  have hknown : Known s' := known_step h.known heff
  have hrows : ∀ a r, s.rows a = some r →
      ∃ r', s.rows a = some r' ∧ r'.pipelineClaimAt = r.pipelineClaimAt :=
    fun a r hr => ⟨r, hr, rfl⟩
  -- one row changes, and keeps its claim
  have hset : ∀ b x x', s.rows b = some x → x'.pipelineClaimAt = x.pipelineClaimAt →
      ∀ a r, s.rows a = some r →
        ∃ r', (s.setRow b x').rows a = some r' ∧ r'.pipelineClaimAt = r.pipelineClaimAt := by
    intro b x x' hx hclaim a r hr
    by_cases ha : a = b
    · subst ha
      rw [hr] at hx
      cases hx
      exact ⟨x', setRow_self .., hclaim⟩
    · exact ⟨r, (setRow_of_ne s b x' ha).trans hr, rfl⟩
  have hcalls : ∀ c, Trails (s.calls c) (s.calls c) := fun c => trails_refl _
  have hpipes : ∀ p x, s.pipes p = some x → s.pipes p = some x := fun _ _ hx => hx
  have hrequests : ∀ q req, s.requests q = some req → req.action = .fullReprocess →
      ∃ req', s.requests q = some req' ∧ req'.action = .fullReprocess ∧ req'.audio = req.audio :=
    fun q req hreq haction => ⟨req, hreq, haction, rfl⟩
  cases heff with
  | waited d => exact h.frame hknown (Nat.le_add_right ..) hrows hcalls hpipes hrequests h.committed
  | created a src userSub p pipes hnone hpipes' =>
      have hrows' : ∀ b r, s.rows b = some r → ∃ r', (s.setRow a (src.row userSub s.now)).rows b =
          some r' ∧ r'.pipelineClaimAt = r.pipelineClaimAt := by
        intro b r hr
        have hb : b ≠ a := by
          rintro rfl
          rw [hnone] at hr
          cases hr
        exact ⟨r, (setRow_of_ne s a _ hb).trans hr, rfl⟩
      have hknown' : Known (s.setRow a (src.row userSub s.now)) :=
        @known_step cfg _ _ _ h.known (.created a src userSub p s.pipes hnone (.inl rfl))
      have h' : SingleInv cfg (s.setRow a (src.row userSub s.now)) :=
        h.frame hknown' (Nat.le_refl _) hrows' hcalls hpipes hrequests h.committed
      rcases hpipes' with rfl | ⟨-, rfl⟩
      · exact h'
      · -- nothing knew of the row
        refine h'.addPipe (a := a) ?_ ?_ ?_ ?_ ?_
        · rw [setRow_self]
          exact Option.some_ne_none _
        · rintro q x hx rfl
          exact h.known.pipe q x hx hnone
        · intro c _ hc
          exact h.known.hand c a hc hnone
        · rintro q req hreq _ rfl
          exact h.known.request q req hreq hnone
        · intro c sub hmem _
          exact absurd hnone (h.known.todo c _ hmem)
  | scanned c caller found hphase htodo hfound => exact h.scanned hknown hact hfound
  | claimed c a userSub rest r hphase htodo hr hfree =>
      exact h.claimed hknown htodo hr hfree hact
  | moved act c a phase hquiet hold hnew huncommitted hload =>
      refine h.frame hknown (Nat.le_refl _) hrows (trails_update rfl
        ⟨rfl, fun _ hx => hx, fun b hb => ?_⟩) hpipes hrequests h.committed
      rw [show phase.audio = some b from hb] at hnew
      rw [hold, hnew]
  | freed act c todo hquiet htodo =>
      exact h.frame hknown (Nat.le_refl _) hrows
        (trails_update rfl ⟨rfl, htodo, fun b hb => by cases hb⟩) hpipes hrequests h.committed
  | reset c probe a path loaded r hphase hr hresets =>
      refine h.frame hknown (Nat.le_refl _) (hset a r _ hr rfl) (trails_update rfl
        ⟨rfl, fun _ hx => hx, fun b hb => ?_⟩) hpipes hrequests h.committed
      rw [hphase]
      exact hb
  | terminal c probe a path loaded r kind hquiet hphase hr =>
      exact h.terminal hknown hphase hr hact
  | submitted c p a path pipes hphase hpipes' =>
      have hknown' : Known (s.setCall c { s.calls c with phase := .next }) :=
        @known_step cfg _ _ _ h.known (.submitted c p a path s.pipes hphase (.inl rfl))
      rcases hpipes' with rfl | ⟨-, rfl⟩
      · exact h.frame hknown' (Nat.le_refl _) hrows
          (trails_update rfl ⟨rfl, fun _ hx => hx, fun b hb => by cases hb⟩) hpipes hrequests
          h.committed
      · exact h.submitted hknown' hphase hact
  | capped => exact h.capped hknown hact
  | asked q action a userSub r hq hr => exact h.asked_step hknown hq hact
  | answered q action a loaded r hq hr =>
      have hclaim : (r.manual loaded s.now action).pipelineClaimAt = r.pipelineClaimAt := by
        cases action <;> rfl
      have hnew : ∀ q' req, Function.update s.requests q
          (if action = .fullReprocess then some ⟨action, a, loaded, true⟩ else none) q' = some req →
          (q' = q ∧ action = .fullReprocess ∧ req = ⟨action, a, loaded, true⟩) ∨
            s.requests q' = some req := by
        intro q' req hreq
        by_cases hqq : q' = q
        · subst hqq
          rw [Function.update_self] at hreq
          split at hreq
          · rename_i haction
            cases hreq
            exact .inl ⟨rfl, haction, rfl⟩
          · cases hreq
        · rw [Function.update_of_ne hqq] at hreq
          exact .inr hreq
      refine h.frame hknown (Nat.le_refl _) (hset a r _ hr hclaim) hcalls hpipes
        (fun q' req hreq haction => ?_) fun q' req hreq hcommitted => ?_
      · rcases hnew q' req hreq with ⟨rfl, hfull, rfl⟩ | hreq
        · exact ⟨_, hq, hfull, rfl⟩
        · exact ⟨req, hreq, haction, rfl⟩
      · rcases hnew q' req hreq with ⟨rfl, hfull, rfl⟩ | hreq
        · exact hfull
        · exact h.committed q' req hreq hcommitted
  | launched q p action a loaded hq hp =>
      have hfull : action = .fullReprocess := h.committed q _ hq rfl
      have hasked := h.asked q _ hq hfull
      have hknown' : Known { s with requests := Function.update s.requests q none } :=
        @known_step cfg _ _ _ h.known (.dropped (.abandon q) q ⟨rfl, rfl, rfl⟩)
      have h' : SingleInv cfg { s with requests := Function.update s.requests q none } :=
        h.frame hknown' (Nat.le_refl _) hrows hcalls hpipes
          (fun q' req hreq haction => ⟨req, (request_of_dropped hreq).2, haction, rfl⟩)
          fun q' req hreq => h.committed q' req (request_of_dropped hreq).2
      refine h'.addPipe (a := a) (h.known.request q _ hq) hasked.unpiped ?_ ?_ ?_
      · intro c ht hc
        obtain ⟨r, t, hold⟩ := h.hand c a hc ht
        exact hold.unasked q _ hq hfull rfl
      · intro q' req hreq haction hsame
        obtain ⟨hne, hold⟩ := request_of_dropped hreq
        exact hne (hasked.alone q' req hold haction hsame)
      · intro c sub hmem ht
        exact absurd hmem (hasked.unlisted c sub ht)
  | dropped act q hquiet =>
      exact h.frame hknown (Nat.le_refl _) hrows hcalls hpipes
        (fun q' req hreq haction => ⟨req, (request_of_dropped hreq).2, haction, rfl⟩)
        fun q' req hreq => h.committed q' req (request_of_dropped hreq).2
  | touched act a r r' pipes hquiet hr hr' hpipes' =>
      exact h.frame hknown (Nat.le_refl _) (hset a r r' hr hr'.claim) hcalls
        (fun p x hx => pipe_of_fewer hpipes' hx) hrequests h.committed
  | unpiped act pipes hquiet hpipes' =>
      exact h.frame hknown (Nat.le_refl _) hrows hcalls
        (fun p x hx => pipe_of_fewer hpipes' hx) hrequests h.committed

/-- **One pipeline per row**, in every state of an orderly run. -/
theorem single_of_orderly {cfg : Config} {acts : List Act} {s : World}
    (h : Guarded (step cfg) (Orderly cfg) World.start acts)
    (hs : run (step cfg) World.start acts = some s) : Single s :=
  (inv_of_guarded (step cfg) (SingleInv cfg)
    (fun _ _ _ hinv hact hstep => singleInv_step hinv hact (effect_of_step hstep))
    singleInv_start h hs).single

/-- The importer has left an audio, which a pod takes up. -/
def imported : List Act :=
  [.create 0 .mcrImport "sub" 0, .mcr 0 (.audio "MCRIMP.m4a"), .wait 301,
    .scan 0 .watchdog [(0, "sub")], .tryClaim 0 true, .inspect 0 true, .load 0,
    .commit 0 .found true, .submit 0 1]

theorem single_imported : ∃ s, run (step .standard) World.start imported = some s ∧
    s.pipes 1 ≠ none ∧ Single s := by
  refine ⟨_, rfl, by decide, @single_of_orderly .standard imported _ ?_ rfl⟩
  -- nothing is asked of the first steps, and there is no pipeline yet when the scan comes
  iterate 3
    refine ⟨trivial, fun s' hs' => ?_⟩
    cases hs'
  refine ⟨⟨fun x _ q req hreq => ?_, fun p x r hx => ?_⟩, fun s' hs' => ?_⟩
  · cases hreq
  · cases hx
  cases hs'
  refine ⟨(by decide : Call.InTime _ _ _), fun s' hs' => ?_⟩
  cases hs'
  iterate 2
    refine ⟨trivial, fun s' hs' => ?_⟩
    cases hs'
  iterate 2
    refine ⟨(by decide : Call.InTime _ _ _), fun s' hs' => ?_⟩
    cases hs'
  trivial

/-- An upload of which a transcription is asked for again by hand, while it is transcribed. -/
def byHand : List Act := uploaded ++ fullReprocess 1

/-- **Two pipelines by hand.** -/
theorem two_by_hand : ¬ ∀ acts s, run (step .standard) World.start acts = some s → Single s := by
  intro h
  have hsame := h byHand _ rfl 0 1 ⟨0, true⟩ ⟨0, false⟩ rfl rfl rfl
  exact absurd hsame (by decide)

end MesReunions.Watchdog
