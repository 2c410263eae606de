import Dataflow.Measure

/-! # Sets of nodes

    A set of nodes, packed into words of 64 bits: node `v` is bit `v % 64` of
    word `v / 64`.  There is room for a fixed number of nodes, so two sets of
    the same room are united word by word. -/

namespace Dataflow

/-- A set of nodes below `room`. -/
structure NodeSet (room : Nat) where
  words : Vector UInt64 ((room + 63) / 64)

namespace NodeSet

variable {room : Nat}

/-- No node at all. -/
def empty : NodeSet room := ⟨Vector.replicate _ 0⟩

instance : EmptyCollection (NodeSet room) := ⟨empty⟩

/-- The word that holds node `v`. -/
def wordOf (s : NodeSet room) (v : Nat) : UInt64 := s.words[v / 64]?.getD 0

/-- Whether `v` is in the set. -/
def contains (s : NodeSet room) (v : Nat) : Bool := (s.wordOf v).toNat.testBit (v % 64)

/-- The set with `v`, if there is room for it. -/
def insert (s : NodeSet room) (v : Nat) : NodeSet room :=
  ⟨s.words.setIfInBounds (v / 64) (s.wordOf v ||| 1 <<< UInt64.ofNat (v % 64))⟩

/-- The nodes that are in one of two sets. -/
def union (s t : NodeSet room) : NodeSet room := ⟨s.words.zipWith (· ||| ·) t.words⟩

instance : Union (NodeSet room) := ⟨union⟩

/-- The number of bits that are set in a word. -/
def ones (word : UInt64) : Nat := (List.range 64).countP word.toNat.testBit

/-- The number of nodes in the set. -/
def size (s : NodeSet room) : Nat := total (s.words.toList.map ones)

@[simp] theorem contains_empty (v : Nat) : (∅ : NodeSet room).contains v = false := by
  show ((Vector.replicate ((room + 63) / 64) (0 : UInt64))[v / 64]?.getD 0).toNat.testBit _ = _
  rw [Vector.getElem?_replicate]
  split <;> simp

@[simp] theorem contains_union (s t : NodeSet room) (v : Nat) :
    (s ∪ t).contains v = (s.contains v || t.contains v) := by
  show ((s.words.zipWith (· ||| ·) t.words)[v / 64]?.getD 0).toNat.testBit _ = _
  by_cases hv : v / 64 < (room + 63) / 64
  · simp [contains, wordOf, hv]
  · simp [contains, wordOf, hv]

/-- Setting one bit of a word. -/
theorem testBit_setBit (word : UInt64) {i : Nat} (hi : i < 64) (j : Nat) :
    (word ||| 1 <<< UInt64.ofNat i).toNat.testBit j = (j = i || word.toNat.testBit j) := by
  have hbit : ((1 : UInt64) <<< UInt64.ofNat i).toNat = 1 <<< i := by
    rw [UInt64.toNat_shiftLeft, UInt64.toNat_ofNat', Nat.mod_eq_of_lt (Nat.lt_trans hi (by decide)),
      Nat.mod_eq_of_lt hi]
    apply Nat.mod_eq_of_lt
    show 1 <<< i < _
    rw [Nat.one_shiftLeft]
    exact Nat.pow_lt_pow_right (by decide) hi
  rw [UInt64.toNat_or, Nat.testBit_or, hbit, Nat.one_shiftLeft, Nat.testBit_two_pow, Bool.or_comm]
  simp [eq_comm]

theorem contains_insert (s : NodeSet room) {v : Nat} (hv : v < room) (w : Nat) :
    (s.insert v).contains w = (w = v || s.contains w) := by
  have hroom : v / 64 < (room + 63) / 64 := by omega
  have hbit : v % 64 < 64 := Nat.mod_lt v (by decide)
  by_cases hword : w / 64 = v / 64
  · -- the same word: the bits decide
    have hget : (s.insert v).wordOf w = s.wordOf v ||| 1 <<< UInt64.ofNat (v % 64) := by
      show ((s.words.setIfInBounds (v / 64) _)[w / 64]?).getD 0 = _
      rw [hword, Vector.getElem?_setIfInBounds_self_of_lt hroom]
      rfl
    have hsame : s.wordOf w = s.wordOf v := by
      rw [wordOf, wordOf, hword]
    have heq : (w % 64 = v % 64) ↔ w = v := by omega
    rw [contains, hget, testBit_setBit _ hbit, contains, hsame]
    simp only [heq]
  · have hne : w ≠ v := fun h => hword (by rw [h])
    have hget : (s.insert v).wordOf w = s.wordOf w := by
      show ((s.words.setIfInBounds (v / 64) _)[w / 64]?).getD 0 = _
      rw [Vector.getElem?_setIfInBounds_ne (fun h => hword h.symm)]
      rfl
    rw [contains, hget, contains]
    simp [hne]

/-- The bits of some words, counted word by word. -/
theorem countP_words (words : List UInt64) :
    (List.range (64 * words.length)).countP
      (fun v => (words[v / 64]?.getD 0).toNat.testBit (v % 64)) = total (words.map ones) := by
  induction words with
  | nil => rfl
  | cons word words ih =>
    -- the first 64 numbers are the bits of the first word, the others are those of the rest
    have hfirst : (List.range 64).countP
        (fun v => ((word :: words)[v / 64]?.getD 0).toNat.testBit (v % 64)) = ones word := by
      apply List.countP_congr
      intro v hv
      have hlt : v < 64 := List.mem_range.1 hv
      rw [Nat.div_eq_of_lt hlt, Nat.mod_eq_of_lt hlt]
      rfl
    have hlater : ∀ v, (word :: words)[(64 + v) / 64]? = words[v / 64]? := by
      intro v
      have hdiv : (64 + v) / 64 = v / 64 + 1 := by omega
      rw [hdiv, List.getElem?_cons_succ]
    have hlength : 64 * (word :: words).length = 64 + 64 * words.length := by
      rw [List.length_cons]
      omega
    rw [hlength, List.range_add, List.countP_append, List.countP_map, hfirst, List.map_cons, total,
      ← ih]
    simp only [Function.comp_def, hlater, Nat.add_mod_left]

/-- The size counts the nodes in the set. -/
theorem size_eq_countP (s : NodeSet room) :
    s.size = (List.range (64 * ((room + 63) / 64))).countP s.contains := by
  have hcount := countP_words s.words.toList
  rw [Vector.length_toList] at hcount
  rw [size, ← hcount]
  apply List.countP_congr
  intro v _
  rw [contains, wordOf, Vector.getElem?_toList]

end NodeSet

end Dataflow
