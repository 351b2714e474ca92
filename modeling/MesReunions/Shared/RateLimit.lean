import MesReunions.Base.Float
import MesReunions.Base.SlidingWindow

/-!
# Rate limiting

`SlidingWindowLimiter` of `rate_limit.py`: for each key, the times of the calls that were accepted,
pruned at each call from what is older than the window.

* `Limiter.allow` — one call.
* `accepted` — the times at which the calls for a key are accepted.
* `expiry` — the difference of two floats is rounded, and keeps the order.
* **`allow_exact`** — for a key that is not empty, no interval of the length of the window holds
  more accepted calls than allowed; a call is refused when that many are recent; the calls for
  other keys do not matter.
* **`empty_key_unlimited`** — the empty key.
-/

namespace MesReunions.RateLimit

open PyFloat

/-! ## The limiter -/

/-- A finite float, in seconds. -/
abbrev Time := {q : ℚ // IsNumber (fin q)}

/-- `dq[0] < cutoff`, with `cutoff = now - self.window` -/
def expired (window now e : Time) : Bool := lt (fin e.1) (sub (fin now.1) (fin window.1))

/-- The fields of a limiter; `_events` is a `defaultdict`. -/
structure Limiter where
  maxEvents : Nat
  window : Time
  events : Str → List Time

/-- `SlidingWindowLimiter(max_events, window_seconds)` -/
def Limiter.new (maxEvents : Int) (window : Time) : Limiter :=
  ⟨(max 1 maxEvents).toNat, window, fun _ => []⟩

/-- `allow(key, now=now)` -/
def Limiter.allow (l : Limiter) (key : Str) (now : Time) : Bool × Limiter :=
  if key = [] then (true, l)
  else
    let dq := (l.events key).dropWhile (expired l.window now)
    if l.maxEvents ≤ dq.length then
      (false, { l with events := Function.update l.events key dq })
    else (true, { l with events := Function.update l.events key (dq ++ [now]) })

structure Call where
  key : Str
  now : Time

/-- The limiter after some calls. -/
def Limiter.after (l : Limiter) (calls : List Call) : Limiter :=
  calls.foldl (fun l c => (l.allow c.key c.now).2) l

/-- The times at which the calls for `k` are accepted. -/
def accepted (l : Limiter) (k : Str) : List Call → List Time
  | [] => []
  | c :: calls =>
      let r := l.allow c.key c.now
      (if c.key = k ∧ r.1 = true then [c.now] else []) ++ accepted r.2 k calls

/-! ## Floats -/

theorem lt_of_le_of_lt_fin {a b : ℚ} {x : PyFloat} (hab : a ≤ b) (h : lt (fin b) x = true) :
    lt (fin a) x = true := by
  cases x with
  | fin c => exact decide_eq_true (lt_of_le_of_lt hab (of_decide_eq_true h))
  | inf negative => exact h
  | nan => exact h

theorem lt_eq_false_of_le {x : PyFloat} {a : ℚ} (h : le x (fin a) = true) :
    lt (fin a) x = false := by
  cases x with
  | fin c => exact decide_eq_false (not_lt.mpr (of_decide_eq_true h))
  | inf negative =>
      have hneg : negative = true := h
      subst hneg
      rfl
  | nan => rfl

/-- **The window.** Rounding keeps the order, so an older event expires first, and for good. -/
def expiry (window : Time) : Expiry Time where
  stale := expired window
  older hab h := lt_of_le_of_lt_fin hab h
  later {now now' _} hnow h :=
    lt_ofRat_mono (add_le_add_left (show now.1 ≤ now'.1 from hnow) _) h

/-- An event that is no older than the window has not expired: its own time is a float. -/
theorem narrow_interval (window : Time) (t : ℚ) :
    (expiry window).Narrow fun e => decide (t ≤ e.1 ∧ e.1 ≤ t + window.1) := by
  intro a b ha hb _
  have hlow := (of_decide_eq_true ha).1
  have hhigh := (of_decide_eq_true hb).2
  have hdiff : b.1 + -window.1 ≤ a.1 := by linarith
  have hle := ofRat_mono hdiff
  rw [a.2.ofRat_eq] at hle
  exact lt_eq_false_of_le hle

/-! ## One key -/

theorem allow_eq (l : Limiter) {key : Str} (h : key ≠ []) (now : Time) :
    l.allow key now =
      (((expiry l.window).accept l.maxEvents (l.events key) now).1, { l with
        events := Function.update l.events key
          ((expiry l.window).accept l.maxEvents (l.events key) now).2 }) := by
  rw [Limiter.allow, if_neg h, Expiry.accept]
  show (if l.maxEvents ≤ (Expiry.prune (expiry l.window) now (l.events key)).length then _
    else _) = _
  split <;> rfl

theorem allow_settings (l : Limiter) (key : Str) (now : Time) :
    (l.allow key now).2.maxEvents = l.maxEvents ∧ (l.allow key now).2.window = l.window := by
  by_cases h : key = []
  · rw [Limiter.allow, if_pos h]
    exact ⟨rfl, rfl⟩
  · rw [allow_eq l h]
    exact ⟨rfl, rfl⟩

/-- A call for another key leaves the queue alone. -/
theorem allow_events_ne (l : Limiter) {key k : Str} (h : key ≠ k) (now : Time) :
    (l.allow key now).2.events k = l.events k := by
  by_cases hkey : key = []
  · rw [Limiter.allow, if_pos hkey]
  · rw [allow_eq l hkey]
    exact Function.update_of_ne h.symm _ _

theorem after_concat (l : Limiter) (calls : List Call) (c : Call) :
    l.after (calls ++ [c]) = ((l.after calls).allow c.key c.now).2 := by
  rw [Limiter.after, List.foldl_append]
  rfl

theorem after_settings (l : Limiter) (calls : List Call) :
    (l.after calls).maxEvents = l.maxEvents ∧ (l.after calls).window = l.window := by
  induction calls using List.reverseRecOn with
  | nil => exact ⟨rfl, rfl⟩
  | append_singleton calls c ih =>
      rw [after_concat]
      obtain ⟨hmax, hwindow⟩ := allow_settings (l.after calls) c.key c.now
      exact ⟨hmax.trans ih.1, hwindow.trans ih.2⟩

theorem accepted_concat (l : Limiter) (k : Str) (calls : List Call) (c : Call) :
    accepted l k (calls ++ [c]) = accepted l k calls ++
      if c.key = k ∧ ((l.after calls).allow c.key c.now).1 = true then [c.now] else [] := by
  induction calls generalizing l with
  | nil =>
      show _ ++ [] = [] ++ _
      rw [List.append_nil, List.nil_append]
      rfl
  | cons d calls ih =>
      show _ ++ accepted _ k (calls ++ [c]) = _ ++ accepted _ k calls ++ _
      rw [ih, List.append_assoc]
      rfl

/-- The decision on a call depends on the settings and on the queue of its key. -/
theorem allow_congr {l l' : Limiter} (hmax : l.maxEvents = l'.maxEvents)
    (hwindow : l.window = l'.window) {k : Str} (hk : k ≠ [])
    (hevents : l.events k = l'.events k) (now : Time) :
    (l.allow k now).1 = (l'.allow k now).1 ∧
      (l.allow k now).2.events k = (l'.allow k now).2.events k := by
  rw [allow_eq l hk, allow_eq l' hk, hmax, hwindow, hevents]
  simp

/-- The queue of a key after some calls is that after the calls for the key. -/
theorem after_filter_events (l : Limiter) {k : Str} (hk : k ≠ []) (calls : List Call) :
    (l.after calls).events k = (l.after (calls.filter fun c => c.key = k)).events k := by
  induction calls using List.reverseRecOn with
  | nil => rfl
  | append_singleton calls c ih =>
      rw [after_concat, List.filter_append]
      by_cases hkey : c.key = k
      · have hone : [c].filter (fun c => decide (c.key = k)) = [c] :=
          List.filter_cons_of_pos (by simpa using hkey)
        rw [hone, after_concat, hkey]
        obtain ⟨hmax, hwindow⟩ := after_settings l calls
        obtain ⟨hmax', hwindow'⟩ := after_settings l (calls.filter fun c => c.key = k)
        exact (allow_congr (hmax.trans hmax'.symm) (hwindow.trans hwindow'.symm) hk ih c.now).2
      · have hnone : [c].filter (fun c => decide (c.key = k)) = [] :=
          List.filter_cons_of_neg (by simpa using hkey)
        rw [hnone, List.append_nil, allow_events_ne _ hkey, ih]

/-! ## Runs -/

/-- After each call, the queue of a key stands for the calls that were accepted, and these are
spread out. -/
theorem kept_after (maxEvents : Int) (window : Time) {k : Str} (hk : k ≠ []) {calls : List Call}
    (hcalls : calls.Pairwise fun a b => a.now ≤ b.now) {now : Time}
    (hnow : ∀ c ∈ calls, c.now ≤ now) :
    (expiry window).Kept now (accepted (.new maxEvents window) k calls)
        ((Limiter.after (.new maxEvents window) calls).events k) ∧
      (expiry window).Bounded (max 1 maxEvents).toNat
        (accepted (.new maxEvents window) k calls) := by
  induction calls using List.reverseRecOn generalizing now with
  | nil => exact ⟨(expiry window).kept_nil now, fun inside _ => Nat.zero_le _⟩
  | append_singleton calls c ih =>
      obtain ⟨hsorted, -, hlast⟩ := List.pairwise_append.mp hcalls
      have hbefore : ∀ d ∈ calls, d.now ≤ c.now := fun d hd =>
        hlast d hd c List.mem_cons_self
      obtain ⟨hkept, hbounded⟩ := ih hsorted hbefore
      have hle : c.now ≤ now := hnow c (List.mem_append_right _ List.mem_cons_self)
      rw [after_concat, accepted_concat]
      by_cases hkey : c.key = k
      · obtain ⟨hmax, hwindow⟩ := after_settings (.new maxEvents window) calls
        have hmax' : (Limiter.after (.new maxEvents window) calls).maxEvents =
          (max 1 maxEvents).toNat := hmax
        have hwindow' : (Limiter.after (.new maxEvents window) calls).window = window := hwindow
        obtain ⟨haccept, hnext⟩ := hkept.accept_spec (max 1 maxEvents).toNat
        rw [hkey, allow_eq _ hk, hmax', hwindow']
        dsimp only
        rw [Function.update_self]
        cases hok : ((expiry window).accept (max 1 maxEvents).toNat
            ((Limiter.after (.new maxEvents window) calls).events k) c.now).1 with
        | true =>
            rw [hok] at hnext
            rw [if_pos ⟨rfl, rfl⟩]
            exact ⟨hnext.mono hle, hbounded.concat hkept.past (haccept.mp hok)⟩
        | false =>
            rw [hok] at hnext
            rw [if_neg fun h => Bool.false_ne_true h.2, List.append_nil]
            exact ⟨hnext.mono hle, hbounded⟩
      · rw [allow_events_ne _ hkey, if_neg fun h => hkey h.1, List.append_nil]
        exact ⟨hkept.mono hle, hbounded⟩

theorem exists_now (window : Time) {calls : List Call}
    (hcalls : calls.Pairwise fun a b => a.now ≤ b.now) : ∃ now : Time, ∀ c ∈ calls, c.now ≤ now := by
  induction calls using List.reverseRecOn with
  | nil => exact ⟨window, nofun⟩
  | append_singleton calls c _ =>
      obtain ⟨-, -, hlast⟩ := List.pairwise_append.mp hcalls
      refine ⟨c.now, fun d hd => ?_⟩
      rcases List.mem_append.mp hd with hd | hd
      · exact hlast d hd c List.mem_cons_self
      · rw [List.mem_singleton.mp hd]

/-- What is exact, after some calls and for one key: an interval of the length of the window holds
at most as many accepted calls as allowed; the next call is refused exactly when that many were
accepted since `now - window`, rounded; and the decision is that of a limiter which has only seen
the calls for the key. -/
def Exact (maxEvents : Int) (window : Time) (calls : List Call) (k : Str) : Prop :=
  (∀ t : ℚ, ((accepted (.new maxEvents window) k calls).filter fun e =>
      t ≤ e.1 ∧ e.1 ≤ t + window.1).length ≤ max 1 maxEvents) ∧
    ∀ now : Time, (∀ c ∈ calls, c.now ≤ now) →
      (((Limiter.after (.new maxEvents window) calls).allow k now).1 = false ↔
        ((accepted (.new maxEvents window) k calls).filter fun e =>
          !expired window now e).length = max 1 maxEvents) ∧
      ((Limiter.after (.new maxEvents window) calls).allow k now).1 =
        ((Limiter.after (.new maxEvents window)
          (calls.filter fun c => c.key = k)).allow k now).1

/-- **Rate limiting is exact**, after any calls in the order of time, for a key that is not
empty. -/
theorem allow_exact (maxEvents : Int) (window : Time) {calls : List Call}
    (hcalls : calls.Pairwise fun a b => a.now ≤ b.now) {k : Str} (hk : k ≠ []) :
    Exact maxEvents window calls k := by
  have hpos : ((max 1 maxEvents).toNat : Int) = max 1 maxEvents :=
    Int.toNat_of_nonneg (le_trans zero_le_one (le_max_left _ _))
  refine ⟨fun t => ?_, fun now hnow => ⟨?_, ?_⟩⟩
  · obtain ⟨now, hnow⟩ := exists_now window hcalls
    have hle := (kept_after maxEvents window hk hcalls hnow).2 _ (narrow_interval window t)
    rw [← hpos]
    exact_mod_cast hle
  · obtain ⟨hkept, hbounded⟩ := kept_after maxEvents window hk hcalls hnow
    have hle := hbounded.recent hkept.past
    obtain ⟨haccept, -⟩ := hkept.accept_spec (max 1 maxEvents).toNat
    obtain ⟨hmax, hwindow⟩ := after_settings (.new maxEvents window) calls
    have hmax' : (Limiter.after (.new maxEvents window) calls).maxEvents =
      (max 1 maxEvents).toNat := hmax
    have hwindow' : (Limiter.after (.new maxEvents window) calls).window = window := hwindow
    rw [allow_eq _ hk, hmax', hwindow', ← Bool.not_eq_true, haccept, not_lt, ← hpos]
    show _ ↔ (((expiry window).recent now _).length : Int) = _
    omega
  · obtain ⟨hmax, hwindow⟩ := after_settings (.new maxEvents window) calls
    obtain ⟨hmax', hwindow'⟩ := after_settings (.new maxEvents window)
      (calls.filter fun c => c.key = k)
    exact (allow_congr (hmax.trans hmax'.symm) (hwindow.trans hwindow'.symm) hk
      (after_filter_events _ hk calls) now).1

/-! ## Two calls -/

def zeroTime : Time := ⟨0, by rw [← ofRat_zero]; exact isNumber_ofRat 0⟩

theorem allow_exact_once : Exact 1 zeroTime [⟨['k'], zeroTime⟩] ['k'] :=
  allow_exact 1 zeroTime (List.pairwise_singleton _ _) (List.cons_ne_nil _ _)

/-- **The empty key.** Its calls are always accepted. -/
theorem empty_key_unlimited : ¬ ∀ (maxEvents : Int) (window : Time) (calls : List Call),
    1 ≤ maxEvents → (calls.Pairwise fun a b => a.now ≤ b.now) → ∀ (k : Str) (t : ℚ),
      ((accepted (.new maxEvents window) k calls).filter fun e =>
        t ≤ e.1 ∧ e.1 ≤ t + window.1).length ≤ maxEvents := by
  intro h
  have htwo := h 1 zeroTime [⟨[], zeroTime⟩, ⟨[], zeroTime⟩] le_rfl
    (List.pairwise_pair.mpr le_rfl) [] 0
  revert htwo
  decide +kernel

end MesReunions.RateLimit
