import MesReunions.Base.JsonText

/-!
# What `json.dumps` writes, `json.loads` reads

`json.dumps(v, separators=(",", ":"), sort_keys=True)`, `json.loads` on a text, and UTF-8.

* `sorted` — a value with the keys of its objects in order; `Same` values differ by the order of the
  keys at most, which is how dicts are compared.
* `dumps`, `loadsText` — the two functions; `none` stands for an exception.
* **`get?_sortedFields`** — the order of the keys does not change what a key gives.
* **`loadsText_dumps`** — what is written is read back, with its keys in order.
* **`decodeStrict_encodeUtf8`** — and it is ASCII, so that its bytes are decoded.
-/

namespace MesReunions.Json

open Str

/-! ## The keys in order -/

/-- A field in its place, before the keys that are greater. -/
def insertKey (f : Str × Json) : List (Str × Json) → List (Str × Json)
  | [] => [f]
  | g :: fields => if f.1 ≤ g.1 then f :: g :: fields else g :: insertKey f fields

mutual

/-- `sort_keys=True` -/
def sorted : Json → Json
  | list items => list (sortedItems items)
  | obj fields => obj (sortedFields fields)
  | v => v

def sortedItems : List Json → List Json
  | [] => []
  | v :: items => sorted v :: sortedItems items

def sortedFields : List (Str × Json) → List (Str × Json)
  | [] => []
  | (key, v) :: fields => insertKey (key, sorted v) (sortedFields fields)

end

/-- `json.dumps(v, separators=(",", ":"), sort_keys=True)` under a recursion limit. -/
def dumps (repr : ℚ → Str) (limit : Nat) (v : Json) : Option Str :=
  if intsFit v = true ∧ depth v ≤ limit then some (write repr (sorted v)) else none

/-- `json.loads(s)` under a recursion limit; a byte order mark is refused. -/
def loadsText (limit : Nat) (s : Str) : Option Json :=
  if s.head? = some '\uFEFF' then none
  else do
    let (v, rest) ← scanOnce ((skipWs s).length + 1) limit (skipWs s)
    if skipWs rest = [] then some v else none

theorem insertKey_perm (f : Str × Json) (fields : List (Str × Json)) :
    List.Perm (insertKey f fields) (f :: fields) := by
  induction fields with
  | nil => exact List.Perm.refl _
  | cons g fields ih =>
      rw [insertKey]
      split
      · exact List.Perm.refl _
      · exact (List.Perm.cons g ih).trans (List.Perm.swap f g fields)

theorem intsFitFields_eq (fields : List (Str × Json)) :
    intsFitFields fields = fields.all fun f => intsFit f.2 := by
  induction fields with
  | nil => rfl
  | cons f fields ih => rw [intsFitFields, ih, List.all_cons]

theorem readableFields_iff {repr : ℚ → Str} {fields : List (Str × Json)} :
    ReadableFields repr fields ↔ ∀ f ∈ fields, Readable repr f.2 := by
  induction fields with
  | nil => exact ⟨fun _ => nofun, fun _ => trivial⟩
  | cons f fields ih => rw [ReadableFields, ih, List.forall_mem_cons]

theorem depthFields_insertKey (f : Str × Json) (fields : List (Str × Json)) :
    depthFields (insertKey f fields) = max (depth f.2) (depthFields fields) := by
  induction fields with
  | nil => rfl
  | cons g fields ih =>
      rw [insertKey]
      split
      · rfl
      · rw [depthFields, ih, depthFields]
        omega

mutual

theorem depth_sorted : ∀ v : Json, depth (sorted v) = depth v
  | .null | .bool _ | .int _ | .float _ | .str _ => rfl
  | .list items => congrArg (· + 1) (depthItems_sorted items)
  | .obj fields => congrArg (· + 1) (depthFields_sorted fields)

theorem depthItems_sorted : ∀ items : List Json, depthItems (sortedItems items) = depthItems items
  | [] => rfl
  | v :: items => by rw [sortedItems, depthItems, depthItems, depth_sorted v, depthItems_sorted items]

theorem depthFields_sorted : ∀ fields : List (Str × Json),
    depthFields (sortedFields fields) = depthFields fields
  | [] => rfl
  | (key, v) :: fields => by
      rw [sortedFields, depthFields_insertKey, depthFields, depth_sorted v,
        depthFields_sorted fields]

end

mutual

theorem intsFit_sorted : ∀ v : Json, intsFit (sorted v) = intsFit v
  | .null | .bool _ | .int _ | .float _ | .str _ => rfl
  | .list items => intsFitItems_sorted items
  | .obj fields => intsFitFields_sorted fields

theorem intsFitItems_sorted : ∀ items : List Json,
    intsFitItems (sortedItems items) = intsFitItems items
  | [] => rfl
  | v :: items => by
      rw [sortedItems, intsFitItems, intsFitItems, intsFit_sorted v, intsFitItems_sorted items]

theorem intsFitFields_sorted : ∀ fields : List (Str × Json),
    intsFitFields (sortedFields fields) = intsFitFields fields
  | [] => rfl
  | (key, v) :: fields => by
      rw [sortedFields, intsFitFields, intsFitFields_eq, (insertKey_perm _ _).all_eq, List.all_cons,
        ← intsFitFields_eq, intsFit_sorted v, intsFitFields_sorted fields]

end

theorem keys_sortedFields : ∀ fields : List (Str × Json),
    List.Perm ((sortedFields fields).map Prod.fst) (fields.map Prod.fst)
  | [] => List.Perm.refl _
  | (key, v) :: fields => by
      rw [sortedFields]
      exact ((insertKey_perm (key, sorted v) _).map Prod.fst).trans
        (List.Perm.cons key (keys_sortedFields fields))

mutual

theorem readable_sorted {repr : ℚ → Str} : ∀ v : Json, Readable repr v → Readable repr (sorted v)
  | .null, h | .bool _, h | .int _, h | .float _, h | .str _, h => h
  | .list items, h => readableItems_sorted items h
  | .obj fields, h =>
      ⟨(keys_sortedFields fields).nodup_iff.mpr h.1, readableFields_sorted fields h.2⟩

theorem readableItems_sorted {repr : ℚ → Str} : ∀ items : List Json,
    ReadableItems repr items → ReadableItems repr (sortedItems items)
  | [], _ => trivial
  | v :: items, h => ⟨readable_sorted v h.1, readableItems_sorted items h.2⟩

theorem readableFields_sorted {repr : ℚ → Str} : ∀ fields : List (Str × Json),
    ReadableFields repr fields → ReadableFields repr (sortedFields fields)
  | [], _ => trivial
  | (key, v) :: fields, h => by
      have hrest := readableFields_iff.mp (readableFields_sorted fields h.2)
      rw [sortedFields, readableFields_iff]
      intro f hf
      rcases List.mem_cons.mp ((insertKey_perm _ _).mem_iff.mp hf) with rfl | hf
      · exact readable_sorted v h.1
      · exact hrest f hf

end

/-! ### Equal values

Two dicts are equal when they give the same value to each key, in whatever order they were filled. -/

/-- Values that differ by the order of their keys at most. -/
def Same (v w : Json) : Prop := sorted v = sorted w

theorem insertKey_head {f : Str × Json} {fields : List (Str × Json)}
    (h : ∀ g ∈ fields, f.1 ≤ g.1) : insertKey f fields = f :: fields := by
  cases fields with
  | nil => rfl
  | cons g fields => rw [insertKey, if_pos (h g List.mem_cons_self)]

theorem pairwise_insertKey {f : Str × Json} {fields : List (Str × Json)}
    (h : fields.Pairwise fun a b => a.1 ≤ b.1) :
    (insertKey f fields).Pairwise fun a b => a.1 ≤ b.1 := by
  induction fields with
  | nil => exact List.pairwise_singleton _ _
  | cons g fields ih =>
      have hcons := List.pairwise_cons.mp h
      rw [insertKey]
      split
      · rename_i hle
        refine List.pairwise_cons.mpr ⟨fun x hx => ?_, h⟩
        rcases List.mem_cons.mp hx with rfl | hx
        · exact hle
        · exact le_trans hle (hcons.1 x hx)
      · rename_i hle
        refine List.pairwise_cons.mpr ⟨fun x hx => ?_, ih hcons.2⟩
        rcases List.mem_cons.mp ((insertKey_perm f fields).mem_iff.mp hx) with rfl | hx
        · exact le_of_not_ge hle
        · exact hcons.1 x hx

theorem pairwise_sortedFields : ∀ fields : List (Str × Json),
    (sortedFields fields).Pairwise fun a b => a.1 ≤ b.1
  | [] => List.Pairwise.nil
  | (_, _) :: fields => by
      rw [sortedFields]
      exact pairwise_insertKey (pairwise_sortedFields fields)

/-- Fields in order whose values are in order. -/
theorem sortedFields_of_sorted {fields : List (Str × Json)}
    (hkeys : fields.Pairwise fun a b => a.1 ≤ b.1) (h : ∀ f ∈ fields, sorted f.2 = f.2) :
    sortedFields fields = fields := by
  induction fields with
  | nil => rfl
  | cons f fields ih =>
      obtain ⟨key, v⟩ := f
      have hv : sorted v = v := h (key, v) List.mem_cons_self
      have hcons := List.pairwise_cons.mp hkeys
      rw [sortedFields, ih hcons.2 fun f hf => h f (List.mem_cons_of_mem _ hf), hv,
        insertKey_head hcons.1]

mutual

theorem sorted_sorted : ∀ v : Json, sorted (sorted v) = sorted v
  | .null | .bool _ | .int _ | .float _ | .str _ => rfl
  | .list items => congrArg Json.list (sortedItems_sorted items)
  | .obj fields => congrArg Json.obj
      (sortedFields_of_sorted (pairwise_sortedFields fields) (sorted_of_mem fields))

theorem sortedItems_sorted : ∀ items : List Json,
    sortedItems (sortedItems items) = sortedItems items
  | [] => rfl
  | v :: items => by
      rw [sortedItems, sortedItems, sorted_sorted v, sortedItems_sorted items]

theorem sorted_of_mem : ∀ (fields : List (Str × Json)), ∀ f ∈ sortedFields fields,
    sorted f.2 = f.2
  | [], _, hf => absurd hf List.not_mem_nil
  | (key, v) :: fields, f, hf => by
      rw [sortedFields] at hf
      rcases List.mem_cons.mp ((insertKey_perm _ _).mem_iff.mp hf) with rfl | hf
      · exact sorted_sorted v
      · exact sorted_of_mem fields f hf

end

theorem same_sorted (v : Json) : Same (sorted v) v := sorted_sorted v

theorem get?_insertKey {f : Str × Json} {fields : List (Str × Json)}
    (h : f.1 ∉ fields.map Prod.fst) (key : Str) :
    get? (insertKey f fields) key = if f.1 = key then some f.2 else get? fields key := by
  induction fields with
  | nil =>
      by_cases hkey : f.1 = key
      · simp [insertKey, get?, hkey]
      · simp [insertKey, get?, hkey]
  | cons g fields ih =>
      rw [List.map_cons, List.mem_cons, not_or] at h
      rw [insertKey]
      split
      · by_cases hkey : f.1 = key
        · simp [get?, hkey]
        · simp [get?, hkey]
      · have hrest := ih h.2
        by_cases hg : g.1 = key
        · have hf : ¬ f.1 = key := fun hf => h.1 (hf.trans hg.symm)
          simp [get?, hg, hf]
        · unfold get? at hrest ⊢
          rw [List.find?_cons_of_neg (by simpa using hg), hrest,
            List.find?_cons_of_neg (by simpa using hg)]

/-- **A dict** whose keys are put in order gives each key the same value. -/
theorem get?_sortedFields : ∀ {fields : List (Str × Json)}, (fields.map Prod.fst).Nodup →
    ∀ key, get? (sortedFields fields) key = (get? fields key).map sorted
  | [], _, _ => rfl
  | (k, v) :: fields, h, key => by
      rw [List.map_cons, List.nodup_cons] at h
      have hnew : k ∉ (sortedFields fields).map Prod.fst := fun hk =>
        h.1 ((keys_sortedFields fields).mem_iff.mp hk)
      have hcons := get?_insertKey (f := (k, sorted v)) hnew key
      rw [sortedFields, hcons, get?_sortedFields h.2 key]
      by_cases hkey : k = key
      · simp [get?, hkey]
      · simp [get?, hkey]

/-! ## What is written -/

def Ascii (s : Str) : Prop := ∀ c ∈ s, c.toNat < 128

theorem Ascii.append {s t : Str} (hs : Ascii s) (ht : Ascii t) : Ascii (s ++ t) :=
  List.forall_mem_append.mpr ⟨hs, ht⟩

theorem Ascii.cons {c : Char} {s : Str} (hc : c.toNat < 128) (hs : Ascii s) : Ascii (c :: s) :=
  List.forall_mem_cons.mpr ⟨hc, hs⟩

theorem ascii_word {s : Str} (h : (s.all fun c => c.toNat < 128) = true) : Ascii s :=
  fun c hc => of_decide_eq_true (List.all_eq_true.mp h c hc)

theorem ascii_hexChar : ∀ d < 16, (hexChar d).toNat < 128 := by decide

theorem ascii_unicodeEscape {n : Nat} (h : n < 0x10000) : Ascii (unicodeEscape n) := by
  refine Ascii.cons (by decide) (Ascii.cons (by decide) ?_)
  refine Ascii.cons (ascii_hexChar _ (by omega)) (Ascii.cons (ascii_hexChar _ (by omega)) ?_)
  exact Ascii.cons (ascii_hexChar _ (by omega)) (Ascii.cons (ascii_hexChar _ (by omega)) nofun)

theorem ascii_escaped (c : Char) : Ascii (escaped c) := by
  have hvalid : c.toNat < 0x110000 := by
    have hvalid : c.toNat.isValidChar := c.valid
    rcases hvalid with h | h
    · omega
    · omega
  unfold escaped
  iterate 7
    split
    · exact ascii_word (by decide)
  split
  · exact Ascii.cons (by omega) nofun
  split
  · rename_i hbmp
    exact ascii_unicodeEscape hbmp
  · exact Ascii.append (ascii_unicodeEscape (by omega)) (ascii_unicodeEscape (by omega))

theorem ascii_quoted (s : Str) : Ascii (quoted s) := by
  refine Ascii.cons (by decide) (Ascii.append (fun c hc => ?_) (ascii_word (by decide)))
  obtain ⟨d, -, hc⟩ := List.mem_flatMap.mp hc
  exact ascii_escaped d c hc

theorem ascii_strOfInt (n : Int) : Ascii (strOfInt n) := by
  have hdigits : Ascii (strOfNat n.natAbs) := fun c hc => by
    have hc := js_of_mem_strOfNat hc
    rw [isDigitJs, Bool.and_eq_true, decide_eq_true_iff, decide_eq_true_iff] at hc
    omega
  unfold strOfInt
  split
  · exact Ascii.cons (by decide) hdigits
  · exact hdigits

section Write

variable {repr : ℚ → Str}

mutual

/-- The text of a value is of ASCII characters. -/
theorem ascii_write : ∀ v : Json, Readable repr v → Ascii (write repr v)
  | .null, _ | .bool true, _ | .bool false, _ | .float .nan, _ | .float (.inf false), _
  | .float (.inf true), _ => ascii_word rfl
  | .float (.fin q), h => by
      have hreads : ReadsBack repr q := h
      exact hreads.ascii
  | .int n, _ => ascii_strOfInt n
  | .str s, _ => ascii_quoted s
  | .list items, h =>
      Ascii.cons (by decide) (Ascii.append (ascii_writeItems items h) (ascii_word (by decide)))
  | .obj fields, h =>
      Ascii.cons (by decide) (Ascii.append (ascii_writeFields fields h.2) (ascii_word (by decide)))

theorem ascii_writeItems : ∀ items : List Json, ReadableItems repr items →
    Ascii (writeItems repr items)
  | [], _ => nofun
  | [v], h => ascii_write v h.1
  | v :: w :: items, h => Ascii.append (ascii_write v h.1)
      (Ascii.cons (by decide) (ascii_writeItems (w :: items) h.2))

theorem ascii_writeFields : ∀ fields : List (Str × Json), ReadableFields repr fields →
    Ascii (writeFields repr fields)
  | [], _ => nofun
  | [(key, v)], h => Ascii.append (ascii_quoted key) (Ascii.cons (by decide) (ascii_write v h.1))
  | (key, v) :: f :: fields, h => Ascii.append (ascii_quoted key) (Ascii.cons (by decide)
      (Ascii.append (ascii_write v h.1)
        (Ascii.cons (by decide) (ascii_writeFields (f :: fields) h.2))))

end

variable {limit depthLimit : Nat} {v : Json} {s : Str}

theorem ascii_dumps (h : Readable repr v) (hs : dumps repr limit v = some s) : Ascii s := by
  rw [dumps] at hs
  split at hs
  · rw [← Option.some.inj hs]
    exact ascii_write _ (readable_sorted v h)
  · cases hs

/-- **What is written is read back**, with its keys in order. -/
theorem loadsText_dumps (h : Readable repr v) (hdepth : depth v ≤ depthLimit)
    (hs : dumps repr limit v = some s) : loadsText depthLimit s = some (sorted v) := by
  have hascii := ascii_dumps h hs
  rw [dumps] at hs
  split at hs
  · rename_i hfit
    have hreadable := readable_sorted v h
    obtain ⟨c, t, hwrite, hws, -⟩ := write_head hreadable
    have hs' : write repr (sorted v) = s := Option.some.inj hs
    have hskip : skipWs s = s := by
      rw [← hs', hwrite]
      exact skipWs_cons hws t
    have hmark : s.head? ≠ some '\uFEFF' := by
      intro hmark
      have hc := hascii '\uFEFF' (List.mem_of_mem_head? hmark)
      exact absurd hc (by decide)
    have hscan : scanOnce (s.length + 1) depthLimit (write repr (sorted v) ++ []) =
        some (sorted v, []) :=
      scan_write (sorted v) hreadable (by rw [intsFit_sorted]; exact hfit.1) (by rw [hs']; omega)
        (by rw [depth_sorted]; exact hdepth) nofun
    rw [hs', List.append_nil] at hscan
    rw [loadsText, if_neg hmark, hskip, hscan]
    rfl
  · cases hs

end Write

/-! ## UTF-8 -/

/-- `s.encode("utf-8")` -/
def encodeUtf8 (s : Str) : Bytes := s.flatMap String.utf8EncodeChar

/-- `b.decode("utf-8")`; the codes of surrogates are refused. -/
def decodeStrict (b : Bytes) : Option Str := do
  let codes ← decodeUtf8 0 0 0 b
  if (codes.all fun n => n.isValidChar) = true then some (codes.map Char.ofNat) else none

theorem decodeUtf8_encodeUtf8 {s : Str} (h : Ascii s) :
    decodeUtf8 0 0 0 (encodeUtf8 s) = some (s.map Char.toNat) := by
  induction s with
  | nil => rfl
  | cons c s ih =>
      obtain ⟨hc, hs⟩ := List.forall_mem_cons.mp h
      have hencode : String.utf8EncodeChar c = [UInt8.ofNat c.toNat] := by
        have hle : c.val.toNat ≤ 0x7F := Nat.le_of_lt_succ hc
        rw [String.utf8EncodeChar, if_pos hle]
        rfl
      have hbyte : (UInt8.ofNat c.toNat).toNat = c.toNat := by
        rw [UInt8.toNat_ofNat']
        exact Nat.mod_eq_of_lt (by omega)
      rw [encodeUtf8, List.flatMap_cons, hencode, List.singleton_append, decodeUtf8]
      simp only [hbyte, if_pos hc]
      rw [← encodeUtf8, ih hs]
      rfl

theorem decodeStrict_encodeUtf8 {s : Str} (h : Ascii s) :
    decodeStrict (encodeUtf8 s) = some s := by
  have hvalid : ((s.map Char.toNat).all fun n => n.isValidChar) = true := by
    refine List.all_eq_true.mpr fun n hn => ?_
    obtain ⟨c, -, rfl⟩ := List.mem_map.mp hn
    exact decide_eq_true c.valid
  have hchars : (s.map Char.toNat).map Char.ofNat = s := by
    rw [List.map_map]
    exact (List.map_congr_left fun c _ => Char.ofNat_toNat c).trans (List.map_id s)
  rw [decodeStrict, decodeUtf8_encodeUtf8 h]
  show (if _ then some _ else none) = _
  rw [if_pos hvalid, hchars]

end MesReunions.Json
