import Mathlib.Algebra.Group.Nat.Defs
import Mathlib.Data.List.Basic

/-!
# LittleEndian — numbers in bytes, and words in a wrapping memory

`value` reads a list of bytes as a number, the first byte least, and `bytes`
writes one. `word` is the number at an offset of a record, which splits where
the record of another layout has a boundary. Last are the 64-bit words of a
byte memory with 64-bit addresses: an address is a word too, so a word at the
top of the memory goes on at its bottom, and what lies in a block is said by
the distance from its first byte.
-/

namespace Wasp.LittleEndian

/-! ## Numbers in bytes -/

def value : List UInt8 → Nat
  | [] => 0
  | b :: bs => b.toNat + 256 * value bs

def bytes : Nat → Nat → List UInt8
  | 0, _ => []
  | n + 1, x => UInt8.ofNat x :: bytes n (x / 256)

@[simp] theorem length_bytes (n x : Nat) : (bytes n x).length = n := by
  induction n generalizing x with
  | zero => rfl
  | succ n ih => simp [bytes, ih]

theorem value_lt (bs : List UInt8) : value bs < 256 ^ bs.length := by
  induction bs with
  | nil => exact Nat.one_pos
  | cons b bs ih =>
      have hb : b.toNat < 256 := b.toNat_lt
      rw [value, List.length_cons, Nat.pow_succ]
      omega

/-- What was written is read, as far as there are bytes for it. -/
theorem value_bytes (n x : Nat) : value (bytes n x) = x % 256 ^ n := by
  induction n generalizing x with
  | zero => simp [bytes, value, Nat.mod_one]
  | succ n ih =>
      have hbyte : (UInt8.ofNat x).toNat = x % 256 := UInt8.toNat_ofNat'
      rw [bytes, value, ih, hbyte, Nat.pow_succ, Nat.mul_comm (256 ^ n), Nat.mod_mul]

theorem value_append (as bs : List UInt8) :
    value (as ++ bs) = value as + 256 ^ as.length * value bs := by
  induction as with
  | nil => simp [value]
  | cons a as ih =>
      rw [List.cons_append, value, value, ih, List.length_cons, Nat.pow_succ', Nat.mul_add,
        Nat.add_assoc, Nat.mul_assoc]

/-! ## Numbers in a record -/

/-- The `n` bytes at offset `o` of a record. -/
def word (m : Nat → UInt8) (o n : Nat) : Nat := value ((List.range n).map fun i => m (o + i))

/-- A number of `n` bytes as a signed one. -/
def signed (n x : Nat) : Int := if 2 * x < 256 ^ n then x else (x : Int) - (256 ^ n : Nat)

section

variable {m m' : Nat → UInt8} {o o' n k : Nat}

theorem word_lt (m : Nat → UInt8) (o n : Nat) : word m o n < 256 ^ n := by
  have h := value_lt ((List.range n).map fun i => m (o + i))
  rwa [List.length_map, List.length_range] at h

theorem word_congr (h : ∀ i < n, m (o + i) = m' (o' + i)) : word m o n = word m' o' n := by
  rw [word, List.map_congr_left fun i hi => h i (List.mem_range.mp hi), word]

/-- A number is made of the one in its low bytes and the one in its high bytes. -/
theorem word_add (m : Nat → UInt8) (o n k : Nat) :
    word m o (n + k) = word m o n + 256 ^ n * word m (o + n) k := by
  rw [word, List.range_add, List.map_append, value_append, List.length_map, List.length_range,
    List.map_map, word, word]
  simp only [Function.comp_def, Nat.add_assoc]

theorem signed_inj {n x y : Nat} (hx : x < 256 ^ n) (hy : y < 256 ^ n) :
    signed n x = signed n y ↔ x = y := by
  unfold signed
  generalize 256 ^ n = w at *
  omega

@[simp] theorem signed_zero (n : Nat) : signed n 0 = 0 := if_pos (Nat.pow_pos (by decide))

theorem signed_word_inj (m m' : Nat → UInt8) (o o' n : Nat) :
    signed n (word m o n) = signed n (word m' o' n) ↔ word m o n = word m' o' n :=
  signed_inj (word_lt m o n) (word_lt m' o' n)

theorem signed_word_eq_zero (m : Nat → UInt8) (o n : Nat) :
    signed n (word m o n) = 0 ↔ word m o n = 0 := by
  rw [← signed_inj (word_lt m o n) (Nat.pow_pos (by decide)), signed_zero]

end

/-! ## Data in a record -/

/-- The bytes `bs` one after another from offset `o` on. -/
def HoldsBytes (m : Nat → UInt8) (o : Nat) (bs : List UInt8) : Prop :=
  ∀ i b, bs[i]? = some b → m (o + i) = b

theorem holdsBytes_append {m : Nat → UInt8} {o : Nat} {as bs : List UInt8} :
    HoldsBytes m o (as ++ bs) ↔ HoldsBytes m o as ∧ HoldsBytes m (o + as.length) bs := by
  constructor
  · intro h
    constructor
    · intro i b hb
      have hi := (List.getElem?_eq_some_iff.mp hb).1
      exact h i b (by rw [List.getElem?_append_left hi]; exact hb)
    · intro i b hb
      rw [Nat.add_assoc]
      apply h
      rw [List.getElem?_append_right (by omega), Nat.add_sub_cancel_left]
      exact hb
  · rintro ⟨ha, hb⟩ i b hi
    by_cases hlt : i < as.length
    · exact ha i b (by rw [← List.getElem?_append_left hlt]; exact hi)
    · rw [List.getElem?_append_right (by omega)] at hi
      have hbyte := hb _ _ hi
      rwa [show o + as.length + (i - as.length) = o + i by omega] at hbyte

theorem HoldsBytes.word {m : Nat → UInt8} {o n x : Nat} (h : HoldsBytes m o (bytes n x)) :
    LittleEndian.word m o n = x % 256 ^ n := by
  have hread : (List.range n).map (fun i => m (o + i)) = bytes n x := by
    apply List.ext_getElem
    · simp
    · intro i hi hi'
      rw [List.getElem_map, List.getElem_range]
      exact h i _ (List.getElem?_eq_getElem hi')
  rw [LittleEndian.word, hread, value_bytes]

abbrev Memory := BitVec 64 → UInt8

/-- The bytes from `a` on. -/
def read (m : Memory) (a : BitVec 64) (n : Nat) : List UInt8 :=
  (List.range n).map fun i => m (a + BitVec.ofNat 64 i)

def load64 (m : Memory) (a : BitVec 64) : BitVec 64 := BitVec.ofNat 64 (value (read m a 8))

def store64 (m : Memory) (a x : BitVec 64) : Memory :=
  fun b => (bytes 8 x.toNat)[(b - a).toNat]?.getD (m b)

/-- Words one after another, from the `k`th place of `base` on. -/
def storeWords (base : BitVec 64) : Memory → Nat → List (BitVec 64) → Memory
  | m, _, [] => m
  | m, k, x :: xs =>
      storeWords base (store64 m (base + BitVec.ofNat 64 (8 * k)) x) (k + 1) xs

theorem distance (a : BitVec 64) {i : Nat} (h : i < 2 ^ 64) :
    (a + BitVec.ofNat 64 i - a).toNat = i := by
  rw [BitVec.add_comm, BitVec.add_sub_cancel, BitVec.toNat_ofNat, Nat.mod_eq_of_lt h]

theorem read_congr {m m' : Memory} {a : BitVec 64} {n : Nat}
    (h : ∀ i < n, m (a + BitVec.ofNat 64 i) = m' (a + BitVec.ofNat 64 i)) :
    read m a n = read m' a n :=
  List.map_congr_left fun i hi => h i (List.mem_range.mp hi)

theorem load64_congr {m m' : Memory} {a : BitVec 64}
    (h : ∀ i < 8, m (a + BitVec.ofNat 64 i) = m' (a + BitVec.ofNat 64 i)) :
    load64 m a = load64 m' a := by
  rw [load64, read_congr h, load64]

theorem store64_outside {m : Memory} {a b x : BitVec 64} (h : 8 ≤ (b - a).toNat) :
    store64 m a x b = m b := by
  rw [store64, List.getElem?_eq_none (by simpa using h), Option.getD_none]

theorem read_store64 (m : Memory) (a x : BitVec 64) :
    read (store64 m a x) a 8 = bytes 8 x.toNat := by
  apply List.ext_getElem
  · simp [read]
  · intro i hi hi'
    have hlt : i < 8 := by simpa [read] using hi
    simp only [read, List.getElem_map, List.getElem_range, store64]
    rw [distance a (by omega), List.getElem?_eq_getElem hi', Option.getD_some]

/-- **A word is read back.** -/
theorem load64_store64 (m : Memory) (a x : BitVec 64) : load64 (store64 m a x) a = x := by
  rw [load64, read_store64, value_bytes, Nat.mod_eq_of_lt, BitVec.ofNat_toNat, BitVec.setWidth_eq]
  exact x.isLt

/-- Bytes outside the words are as they were. -/
theorem storeWords_outside {base b : BitVec 64} {xs : List (BitVec 64)} {m : Memory} {k : Nat}
    (hk : 8 * (k + xs.length) ≤ 2 ^ 64)
    (h : (b - base).toNat < 8 * k ∨ 8 * (k + xs.length) ≤ (b - base).toNat) :
    storeWords base m k xs b = m b := by
  induction xs generalizing m k with
  | nil => rfl
  | cons x xs ih =>
      rw [List.length_cons] at hk h
      rw [storeWords, ih (by omega) (by omega)]
      apply store64_outside
      have hplace : (BitVec.ofNat 64 (8 * k)).toNat = 8 * k := by
        rw [BitVec.toNat_ofNat, Nat.mod_eq_of_lt (by omega)]
      have hsub : b - (base + BitVec.ofNat 64 (8 * k)) = b - base - BitVec.ofNat 64 (8 * k) :=
        (BitVec.sub_sub b base _).symm
      rw [hsub, BitVec.toNat_sub, hplace]
      have := (b - base).isLt
      omega

/-- **Each of the words is read back.** -/
theorem load64_storeWords {base : BitVec 64} {xs : List (BitVec 64)} {m : Memory} {k i : Nat}
    {x : BitVec 64} (hk : 8 * (k + xs.length) ≤ 2 ^ 64) (hx : xs[i]? = some x) :
    load64 (storeWords base m k xs) (base + BitVec.ofNat 64 (8 * (k + i))) = x := by
  induction xs generalizing m k i with
  | nil => simp at hx
  | cons y xs ih =>
      rw [List.length_cons] at hk
      rw [storeWords]
      cases i with
      | zero =>
          rw [List.getElem?_cons_zero, Option.some.injEq] at hx
          subst hx
          show load64 _ (base + BitVec.ofNat 64 (8 * k)) = y
          -- the later words leave this one alone
          have hkeep : load64 (storeWords base (store64 m (base + BitVec.ofNat 64 (8 * k)) y)
              (k + 1) xs) (base + BitVec.ofNat 64 (8 * k)) =
              load64 (store64 m (base + BitVec.ofNat 64 (8 * k)) y)
                (base + BitVec.ofNat 64 (8 * k)) := by
            apply load64_congr
            intro j hj
            apply storeWords_outside (by omega)
            left
            rw [BitVec.add_assoc, ← BitVec.ofNat_add, distance base (by omega)]
            omega
          rw [hkeep, load64_store64]
      | succ i =>
          rw [List.getElem?_cons_succ] at hx
          rw [show k + (i + 1) = k + 1 + i by omega]
          exact ih (by omega) hx

end Wasp.LittleEndian
