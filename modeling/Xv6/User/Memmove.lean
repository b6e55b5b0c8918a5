import Mathlib.Logic.Function.Basic

/-!
memmove of the kernel, string.c, and of the user library, ulib.c, over a memory of bytes
with 32-bit addresses. The kernel chooses the direction of its loop; the user library
copies upwards always, and takes its length as an int.
-/
namespace Xv6.Memmove

/-- Addresses are uints. -/
def WORD : Nat := 4294967296

abbrev Bytes := Nat → UInt8

/-- while(n-- > 0) *d++ = *s++; -/
def copyUp : Nat → Nat → Nat → Bytes → Bytes
  | 0, _, _, m => m
  | n + 1, d, s, m => copyUp n ((d + 1) % WORD) ((s + 1) % WORD) (Function.update m d (m s))

/-- while(n-- > 0) *--d = *--s; -/
def copyDown : Nat → Nat → Nat → Bytes → Bytes
  | 0, _, _, m => m
  | n + 1, d, s, m =>
    let d := (d + WORD - 1) % WORD
    let s := (s + WORD - 1) % WORD
    copyDown n d s (Function.update m d (m s))

/-- memmove of string.c. -/
def memmove (m : Bytes) (dst src n : Nat) : Bytes :=
  if src < dst ∧ (src + n) % WORD > dst then copyDown n ((dst + n) % WORD) ((src + n) % WORD) m
  else copyUp n dst src m

/-- A uint that is passed as an int. -/
def int (n : Nat) : Int := if n < WORD / 2 then n else n - WORD

/-- memmove of ulib.c; a negative length copies nothing. -/
def ulibMemmove (m : Bytes) (dst src n : Nat) : Bytes := copyUp (int n).toNat dst src m

def moved (m : Bytes) (dst src n : Nat) : Bytes :=
  fun a => if dst ≤ a ∧ a < dst + n then m (src + (a - dst)) else m a

/-- Upwards, no byte is read after it has been written if the destination does not start
    inside the source. -/
theorem copyUp_moved {n d s : Nat} (m : Bytes) (dst : d + n ≤ WORD) (src : s + n ≤ WORD)
    (apart : d ≤ s ∨ s + n ≤ d) : copyUp n d s m = moved m d s n := by
  induction n generalizing d s m with
  | zero =>
    funext a
    rw [copyUp, moved, if_neg (by omega)]
  | succ n ih =>
    by_cases last : n = 0
    · subst last
      funext a
      rw [copyUp, copyUp, moved, Function.update_apply]
      by_cases here : a = d
      · rw [if_pos here, if_pos (by omega), here, Nat.sub_self, Nat.add_zero]
      · rw [if_neg here, if_neg (by omega)]
    · have next : (d + 1) % WORD = d + 1 := Nat.mod_eq_of_lt (by omega)
      have next' : (s + 1) % WORD = s + 1 := Nat.mod_eq_of_lt (by omega)
      rw [copyUp, next, next', ih _ (by omega) (by omega) (by omega)]
      funext a
      simp only [moved, Function.update_apply]
      by_cases here : a = d
      · rw [if_neg (by omega), if_pos here, if_pos (by omega), here, Nat.sub_self, Nat.add_zero]
      by_cases inside : d + 1 ≤ a ∧ a < d + 1 + n
      · have place : s + 1 + (a - (d + 1)) = s + (a - d) := by omega
        have old : s + (a - d) ≠ d := by omega
        rw [if_pos inside, place, if_neg old, if_pos (by omega)]
      · rw [if_neg inside, if_neg here, if_neg (by omega)]

theorem back_one (p : Nat) : ((p + 1) % WORD + WORD - 1) % WORD = p % WORD := by
  simp only [WORD]
  omega

theorem copyDown_moved {n d s : Nat} (m : Bytes) (dst : d + n ≤ WORD) (above : s ≤ d) :
    copyDown n ((d + n) % WORD) ((s + n) % WORD) m = moved m d s n := by
  induction n generalizing m with
  | zero =>
    funext a
    rw [copyDown, moved, if_neg (by omega)]
  | succ n ih =>
    have last : (d + n) % WORD = d + n := Nat.mod_eq_of_lt (by omega)
    have last' : (s + n) % WORD = s + n := Nat.mod_eq_of_lt (by omega)
    rw [copyDown]
    simp only [← Nat.add_assoc]
    rw [back_one, back_one, ih _ (by omega), last, last']
    funext a
    simp only [moved, Function.update_apply]
    by_cases here : a = d + n
    · have place : s + (d + n - d) = s + n := by omega
      rw [if_neg (by omega), if_pos here, if_pos (by omega), here, place]
    by_cases inside : d ≤ a ∧ a < d + n
    · have old : s + (a - d) ≠ d + n := by omega
      rw [if_pos inside, if_neg old, if_pos (by omega)]
    · rw [if_neg inside, if_neg here, if_neg (by omega)]

theorem memmove_moved {dst src n : Nat} (m : Bytes) (into : dst + n ≤ WORD) (source : src + n ≤ WORD) :
    memmove m dst src n = moved m dst src n := by
  rw [memmove]
  by_cases up : src < dst
  · -- then the source ends below the top of memory
    have below : (src + n) % WORD = src + n := Nat.mod_eq_of_lt (by omega)
    by_cases overlap : (src + n) % WORD > dst
    · rw [if_pos ⟨up, overlap⟩]
      exact copyDown_moved m into (Nat.le_of_lt up)
    · rw [if_neg fun both => overlap both.2]
      exact copyUp_moved m into source (Or.inr (by omega))
  · rw [if_neg fun both => up both.1]
    exact copyUp_moved m into source (Or.inl (by omega))

end Xv6.Memmove
