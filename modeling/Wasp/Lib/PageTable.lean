import Wasp.Lib.LittleEndian

/-!
# PageTable — the address translation of 64-bit paging

Four levels of tables with 512 entries of eight bytes each; a table is at
level `3` at the root and at level `0` where its entries map pages of 4 KiB.
An entry with the page-size bit maps a larger page, at the levels where
there are such pages. `walkFrom` is the walk from one table down, with the
permissions gathered so far; the lemmas say what one entry does to it.

A set page-size bit in the root and the bits that a processor reserves are
not looked at.
-/

namespace Wasp.PageTable

open LittleEndian

inductive Translation where
  | page (physical : Nat) (writable executable : Bool)
  | notPresent
  | nonCanonical
  deriving DecidableEq, Repr

/-! ## Entries -/

def present (e : Nat) : Bool := e % 2 == 1

def writable (e : Nat) : Bool := e / 2 % 2 == 1

def large (e : Nat) : Bool := e / 2 ^ 7 % 2 == 1

def executable (e : Nat) : Bool := e / 2 ^ 63 % 2 == 0

/-- The bytes an entry at `level` stands for. -/
def span (level : Nat) : Nat := 4096 * 512 ^ level

/-- The address in an entry, bits 51 down to the size `s` of what it points
at. -/
def frame (e s : Nat) : Nat := e % 2 ^ 52 / s * s

/-- The entry of the table for the address. -/
def entry (m : Nat → UInt8) (table level va : Nat) : Nat :=
  word m (table + 8 * (va / span level % 512)) 8

/-! ## The walk -/

def walkFrom (m : Nat → UInt8) : Nat → Nat → Nat → Bool → Bool → Translation
  | 0, table, va, w, x =>
      let e := entry m table 0 va
      if present e then
        .page (frame e (span 0) + va % span 0) (w && writable e) (x && executable e)
      else .notPresent
  | level + 1, table, va, w, x =>
      let e := entry m table (level + 1) va
      if present e then
        if large e && decide (level < 2) then
          .page (frame e (span (level + 1)) + va % span (level + 1)) (w && writable e)
            (x && executable e)
        else walkFrom m level (frame e 4096) va (w && writable e) (x && executable e)
      else .notPresent

/-- Bits 63 to 47 are all the same. -/
def canonical (va : Nat) : Bool := decide (va < 2 ^ 47 ∨ 2 ^ 64 - 2 ^ 47 ≤ va)

/-- The translation of a linear address under the tables at `cr3`. -/
def walk (m : Nat → UInt8) (cr3 va : Nat) : Translation :=
  if canonical va then walkFrom m 3 (frame cr3 4096) va true true else .nonCanonical

section

variable {m : Nat → UInt8} {level table va e : Nat} {w x : Bool}

theorem walkFrom_absent (he : entry m table (level + 1) va = e) (hp : present e = false) :
    walkFrom m (level + 1) table va w x = .notPresent := by
  simp [walkFrom, he, hp]

theorem walkFrom_next (he : entry m table (level + 1) va = e) (hp : present e = true)
    (hl : large e = false) :
    walkFrom m (level + 1) table va w x =
      walkFrom m level (frame e 4096) va (w && writable e) (x && executable e) := by
  simp [walkFrom, he, hp, hl]

theorem walkFrom_large (he : entry m table (level + 1) va = e) (hp : present e = true)
    (hl : large e = true) (hlevel : level < 2) :
    walkFrom m (level + 1) table va w x =
      .page (frame e (span (level + 1)) + va % span (level + 1)) (w && writable e)
        (x && executable e) := by
  simp [walkFrom, he, hp, hl, hlevel]

end

/-! ## Tables in memory -/

/-- The words `xs` one after another from `a` on. -/
def Holds (m : Nat → UInt8) (a : Nat) (xs : List Nat) : Prop :=
  ∀ i y, xs[i]? = some y → word m (a + 8 * i) 8 = y

theorem Holds.append {m : Nat → UInt8} {a : Nat} {xs ys : List Nat}
    (h : Holds m a (xs ++ ys)) : Holds m a xs ∧ Holds m (a + 8 * xs.length) ys := by
  constructor
  · intro i y hy
    have hi := (List.getElem?_eq_some_iff.mp hy).1
    exact h i y (by rw [List.getElem?_append_left hi]; exact hy)
  · intro i y hy
    have hword := h (xs.length + i) y (by
      rw [List.getElem?_append_right (by omega), Nat.add_sub_cancel_left]
      exact hy)
    rw [show a + 8 * xs.length + 8 * i = a + 8 * (xs.length + i) by omega]
    exact hword

theorem Holds.entry {m : Nat → UInt8} {table level va y : Nat} {xs : List Nat}
    (h : Holds m table xs) (hy : xs[va / span level % 512]? = some y) :
    PageTable.entry m table level va = y :=
  h _ _ hy

/-- Words written out in bytes. -/
theorem holds_of_bytes {m : Nat → UInt8} {a : Nat} {xs : List Nat}
    (h : HoldsBytes m a (xs.flatMap (bytes 8))) (hxs : ∀ y ∈ xs, y < 256 ^ 8) :
    Holds m a xs := by
  induction xs generalizing a with
  | nil => exact fun i y hy => by simp at hy
  | cons x xs ih =>
      rw [List.flatMap_cons, holdsBytes_append, length_bytes] at h
      intro i y hy
      cases i with
      | zero =>
          rw [List.getElem?_cons_zero, Option.some.injEq] at hy
          subst hy
          rw [Nat.mul_zero, Nat.add_zero, h.1.word, Nat.mod_eq_of_lt (hxs x (by simp))]
      | succ i =>
          have hword := ih h.2 (fun y hy => hxs y (by simp [hy])) i y hy
          rwa [show a + 8 + 8 * i = a + 8 * (i + 1) by omega] at hword

/-- A memory with the words `xs` from `a` on. -/
def ofWords (a : Nat) (xs : List Nat) : Nat → UInt8 :=
  fun b => ((bytes 8 (xs.getD ((b - a) / 8) 0))[(b - a) % 8]?).getD 0

theorem ofWords_holds (a : Nat) {xs : List Nat} (hxs : ∀ y ∈ xs, y < 256 ^ 8) :
    Holds (ofWords a xs) a xs := by
  intro i y hy
  have hbyte : ∀ k < 8, ofWords a xs (a + 8 * i + k) = ((bytes 8 y)[k]?).getD 0 := by
    intro k hk
    have hdist : a + 8 * i + k - a = 8 * i + k := by omega
    rw [ofWords, hdist, show (8 * i + k) / 8 = i by omega, show (8 * i + k) % 8 = k by omega,
      List.getD_eq_getElem?_getD, hy, Option.getD_some]
  have hread : (List.range 8).map (fun k => ofWords a xs (a + 8 * i + k)) = bytes 8 y := by
    apply List.ext_getElem
    · simp
    · intro k hk hk'
      rw [List.getElem_map, List.getElem_range, hbyte k (by simpa using hk),
        List.getElem?_eq_getElem hk', Option.getD_some]
  rw [word, hread, value_bytes, Nat.mod_eq_of_lt (hxs y (List.mem_of_getElem? hy))]

end Wasp.PageTable
