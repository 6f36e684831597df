import Inventory.Cbor.Head
import Mathlib.Algebra.Group.Int.Defs
import Mathlib.Algebra.Group.Nat.Defs
import Mathlib.Tactic.Common

/-!
# Heads that were written

What is read from a head that was written, whatever bytes follow it.

* `ofBigEndian_bigEndian`: bytes spell the number they were made of.
* `Numeral`: a number as the argument of a head, in as many bytes as one likes.
* `Numeral.read_write`: **a head is read with the argument it was written with**.
* `writeHead_eq_write`: the heads that are written here have the shortest argument.
-/

namespace Inventory.Cbor

theorem bigEndian_length (count n : Nat) : (bigEndian count n).length = count := by
  induction count with
  | zero => rfl
  | succ count ih => exact congrArg (· + 1) ih

theorem ofBigEndian_cons (acc : Nat) (b : UInt8) (bs : Bytes) :
    ofBigEndian acc (b :: bs) = ofBigEndian (acc * 256 + b.toNat) bs := rfl

/-- The last bytes of a number spell what is left of it. -/
theorem ofBigEndian_bigEndian_mod (acc count n : Nat) :
    ofBigEndian acc (bigEndian count n) = acc * 256 ^ count + n % 256 ^ count := by
  induction count generalizing acc with
  | zero => simp [bigEndian, ofBigEndian, Nat.mod_one]
  | succ count ih =>
    have hdigit : (UInt8.ofNat (n / twoPow (8 * count))).toNat = n / 256 ^ count % 256 := by
      rw [UInt8.toNat_ofNat', show twoPow (8 * count) = 2 ^ (8 * count) from rfl, Nat.pow_mul]
    show ofBigEndian acc (UInt8.ofNat (n / twoPow (8 * count)) :: bigEndian count n) = _
    rw [ofBigEndian_cons, ih, hdigit, Nat.mod_pow_succ, Nat.pow_succ, Nat.add_mul, Nat.mul_assoc,
      Nat.mul_comm 256, Nat.mul_comm (n / 256 ^ count % 256)]
    omega

/-- **Bytes spell the number they were made of**, if there are enough of them. -/
theorem ofBigEndian_bigEndian {count n : Nat} (h : n < 256 ^ count) :
    ofBigEndian 0 (bigEndian count n) = n := by
  rw [ofBigEndian_bigEndian_mod, Nat.mod_eq_of_lt h, Nat.zero_mul, Nat.zero_add]

theorem takeExact_append {n : Nat} {taken : Bytes} (h : taken.length = n) (rest : Bytes) :
    takeExact n (taken ++ rest) = some (taken, rest) := by
  subst h
  unfold takeExact
  rw [if_pos (by rw [List.length_append]; exact Nat.le_add_right _ _), List.take_left,
    List.drop_left]

namespace Argument

theorem read_short {n : Nat} (h : n < 24) (bs : Bytes) : read n bs = some (short n, bs) := by
  unfold read; rw [if_pos h]

/-- An argument of one, two, four or eight bytes. -/
theorem read_long {k n : Nat} (hk : k < 4) (hn : n < 256 ^ 2 ^ k) (rest : Bytes) :
    read (24 + k) (bigEndian (2 ^ k) n ++ rest) = some (long (2 ^ k) n, rest) := by
  have hcount : twoPow (24 + k - 24) = 2 ^ k := by rw [Nat.add_sub_cancel_left]; rfl
  unfold read
  rw [if_neg (by omega), if_pos (by omega)]
  simp only [hcount, takeExact_append (bigEndian_length (2 ^ k) n), Option.map_some,
    ofBigEndian_bigEndian hn]

end Argument

/-- A head takes at least a byte, so there is fuel for it. -/
theorem length_of_read {bs rest : Bytes} {head : Head} (h : Head.read bs = some (head, rest)) :
    ∃ fuel, bs.length = fuel + 1 := by
  cases bs with
  | nil => cases h
  | cons b bs => exact ⟨bs.length, rfl⟩

/-- The first byte of a head. -/
theorem Head.read_cons {major minor : Nat} (hmajor : major < 8) (hminor : minor < 32)
    {a : Argument} {bs rest : Bytes} (h : Argument.read minor bs = some (a, rest)) :
    Head.read (UInt8.ofNat (major * 32 + minor) :: bs) =
      (Head.ofArgument major a).map fun h => (h, rest) := by
  have hbyte : (UInt8.ofNat (major * 32 + minor)).toNat = major * 32 + minor := by
    rw [UInt8.toNat_ofNat', Nat.mod_eq_of_lt]
    show major * 32 + minor < 256
    omega
  unfold Head.read
  simp only [hbyte]
  rw [show (major * 32 + minor) % 32 = minor by omega,
    show (major * 32 + minor) / 32 = major by omega, h]

/-! ## Numbers as arguments -/

/-- A number as the argument of a head: in the first byte, or in one, two, four or eight bytes after
it, whether or not fewer would do. -/
inductive Numeral where
  | short (n : Fin 24)
  | long (size : Fin 4) (n : Fin (256 ^ 2 ^ size.val))

namespace Numeral

/-- The number. -/
def value : Numeral → Nat
  | short n => n
  | long _ n => n

/-- The number as what a head is read from. -/
def argument : Numeral → Argument
  | short n => .short n
  | long size n => .long (2 ^ size.val) n

/-- The head of a major type with the number. -/
def write (major : Nat) : Numeral → Bytes
  | short n => [UInt8.ofNat (major * 32 + n)]
  | long size n => UInt8.ofNat (major * 32 + (24 + size)) :: bigEndian (2 ^ size.val) n

@[simp] theorem number?_argument (n : Numeral) : n.argument.number? = some n.value := by
  cases n <;> rfl

/-- **A head is read with the argument it was written with.** -/
theorem read_write (n : Numeral) {major : Nat} (hmajor : major < 8) (rest : Bytes) :
    Head.read (n.write major ++ rest) =
      (Head.ofArgument major n.argument).map fun head => (head, rest) := by
  cases n with
  | short n => exact Head.read_cons hmajor (by omega) (Argument.read_short n.isLt rest)
  | long size n =>
    exact Head.read_cons hmajor (by omega) (Argument.read_long size.isLt n.isLt rest)

/-- A head with a number is read with it. -/
theorem read_number (n : Numeral) {major : Nat} (hmajor : major < 8) {head : Nat → Head}
    (hhead : ∀ a : Argument, Head.ofArgument major a = a.number?.map head) (rest : Bytes) :
    Head.read (n.write major ++ rest) = some (head n.value, rest) := by
  rw [n.read_write hmajor, hhead, number?_argument]
  rfl

theorem write_length_pos (n : Numeral) (major : Nat) : 0 < (n.write major).length := by
  cases n <;> exact Nat.succ_pos _

end Numeral

/-- **A head is written with the shortest argument that holds the number**, whatever it is for. -/
theorem writeHead_eq_write {n : Nat} (hn : n < 2 ^ 64) :
    ∃ m : Numeral, m.value = n ∧ ∀ major, writeHead major n = m.write major := by
  by_cases h0 : n < 24
  · exact ⟨.short ⟨n, h0⟩, rfl, fun _ => if_pos h0⟩
  by_cases h1 : n < twoPow 8
  · exact ⟨.long 0 ⟨n, h1⟩, rfl, fun _ => (if_neg h0).trans (if_pos h1)⟩
  by_cases h2 : n < twoPow 16
  · exact ⟨.long 1 ⟨n, h2⟩, rfl, fun _ => (if_neg h0).trans ((if_neg h1).trans (if_pos h2))⟩
  by_cases h3 : n < twoPow 32
  · refine ⟨.long 2 ⟨n, h3⟩, rfl, fun _ => ?_⟩
    exact (if_neg h0).trans ((if_neg h1).trans ((if_neg h2).trans (if_pos h3)))
  · refine ⟨.long 3 ⟨n, hn⟩, rfl, fun _ => ?_⟩
    exact (if_neg h0).trans ((if_neg h1).trans ((if_neg h2).trans (if_neg h3)))

end Inventory.Cbor
