import Xv6.Memory.Boot

/-!
The argument stack that exec builds. sp is a uint and is lowered without a test; what
keeps the arguments inside the top page is that copyout fails at the guard page below it
and at every kernel page.
-/
namespace Xv6
open RefCount Phys

namespace Phys

def ubyte (s : Phys) (d a : Nat) : UInt8 := s.content d (a / 4096) (a % 4096)

/-- The uint it reads there. -/
def uword (s : Phys) (d a : Nat) : Nat :=
  (s.ubyte d a).toNat + 256 * ((s.ubyte d (a + 1)).toNat + 256 * ((s.ubyte d (a + 2)).toNat +
    256 * (s.ubyte d (a + 3)).toNat))

end Phys

section
variable [Layout] {live own : Finset Nat} {x : Nat → Nat} {s s' : Phys}

/-- The bytes bs have been copied to va, which lies in user pages throughout. -/
structure Copied (d va : Nat) (bs : List UInt8) (s s' : Phys) : Prop where
  inside : ∀ i < bs.length, va + i < KERNBASE ∧ (s.pte d ((va + i) / 4096)).u = true
  byte : ∀ a < KERNBASE, s'.ubyte d a = if va ≤ a ∧ a < va + bs.length then bs.getD (a - va) 0 else s.ubyte d a

theorem ubyte_write (inv : FrameInv live own x s) {d vp : Nat} (hd : d ∈ live) (hv : vp < NUPAGES)
    (present : (s.pte d vp).p = true) (write : (s.pte d vp).w = true) (off : Nat) (bs : List UInt8) {a : Nat}
    (user : a < KERNBASE) :
    (s.setPage (s.pte d vp).frame ((s.page (s.pte d vp).frame).write off bs)).ubyte d a =
      if a / 4096 = vp ∧ off ≤ a % 4096 ∧ a % 4096 < off + bs.length then bs.getD (a % 4096 - off) 0
      else s.ubyte d a := by
  obtain ⟨-, pte, keeps⟩ := inv.write_user hd hv present write ((s.page (s.pte d vp).frame).write off bs)
  unfold Phys.ubyte
  by_cases here : a / 4096 = vp
  · rw [here]
    have new : (s.setPage (s.pte d vp).frame ((s.page (s.pte d vp).frame).write off bs)).content d vp =
        ((s.page (s.pte d vp).frame).write off bs).byte := by
      rw [Phys.content, pte d hd vp, if_pos present, setPage_page, Function.update_self]
    have old : s.content d vp = (s.page (s.pte d vp).frame).byte := by rw [Phys.content, if_pos present]
    rw [new, old]
    simp only [Page.write, Page.byte, true_and]
  · have hv' : a / 4096 < NUPAGES := by
      simp only [KERNBASE, NUPAGES] at *
      omega
    rw [if_neg fun both => here both.1, keeps.content hd hv' fun both => here both.2]

theorem copyoutLoop_copied {d n : Nat} (hd : d ∈ live) (fuel va : Nat) (buf : List UInt8) (s : Phys)
    (inv : FrameInv live own x s) (image : ImageInv s d n) (uint : va < 4294967296) (enough : buf.length < fuel)
    (done : ¬ (Phys.copyoutLoop d fuel va buf s).1 < 0) :
    Copied d va buf s (Phys.copyoutLoop d fuel va buf s).2 := by
  induction fuel generalizing va buf s with
  | zero => omega
  | succ fuel ih =>
    rw [Phys.copyoutLoop] at done ⊢
    by_cases more : 0 < buf.length
    · rw [if_pos more] at done ⊢
      simp only at done ⊢
      have index : pgrounddown va / 4096 = va / 4096 := by
        simp only [pgrounddown, PGSIZE]
        omega
      cases found : s.uva2ka d (pgrounddown va) with
      | none =>
        rw [found] at done
        exact absurd (show (-1 : Int) < 0 by decide) done
      | some f =>
        rw [found] at done
        simp only at done ⊢
        obtain ⟨present, user, rfl⟩ := uva2ka_eq_some.mp found
        rw [found_eq_pte, index] at present user
        rw [found_eq_pte, index] at done ⊢
        have hv : va / 4096 < NUPAGES := by
          by_contra high
          rw [image.kernel _ (by omega) (Nat.not_lt.mp high)] at user
          cases user
        have low : va / 4096 < n := by
          by_contra high
          rw [image.rest _ hv (Nat.not_lt.mp high)] at present
          cases present
        have write := (image.full _ hv low).2
        have offset : va - pgrounddown va = va % 4096 := by
          simp only [pgrounddown, PGSIZE]
          omega
        have next : (pgrounddown va + PGSIZE) % 4294967296 = (va / 4096 + 1) * 4096 := by
          simp only [pgrounddown, PGSIZE, NUPAGES] at *
          omega
        rw [offset, next] at done ⊢
        generalize size : (if PGSIZE - va % 4096 > buf.length then buf.length else PGSIZE - va % 4096) = k at done ⊢
        have filled := Filled.of_write inv hd hv present write
          ((s.page (s.pte d (va / 4096)).frame).write (va % 4096) (buf.take k))
        have written := fun a => ubyte_write inv hd hv present write (va % 4096) (buf.take k) (a := a)
        generalize s.setPage _ _ = s1 at filled written done ⊢
        have bound : k ≤ buf.length ∧ 0 < k ∧ va % 4096 + k ≤ 4096 ∧ (k < buf.length → va % 4096 + k = 4096) := by
          by_cases short : PGSIZE - va % 4096 > buf.length
          · rw [if_pos short] at size
            simp only [PGSIZE] at short
            omega
          · rw [if_neg short] at size
            simp only [PGSIZE] at short size
            omega
        have length : (buf.take k).length = k := by rw [List.length_take]; omega
        obtain ⟨inside, byte⟩ := ih ((va / 4096 + 1) * 4096) (buf.drop k) s1 filled.inv (filled.image hd image)
          (by simp only [NUPAGES] at hv; omega) (by rw [List.length_drop]; omega) done
        rw [List.length_drop] at inside byte
        constructor
        · intro i less
          by_cases first : i < k
          · have same : (va + i) / 4096 = va / 4096 := by omega
            rw [same]
            refine ⟨?_, user⟩
            simp only [KERNBASE, NUPAGES] at *
            omega
          · obtain ⟨below, open'⟩ := inside (i - k) (by omega)
            have same : (va / 4096 + 1) * 4096 + (i - k) = va + i := by omega
            rw [same] at below open'
            rw [filled.pte d hd] at open'
            exact ⟨below, open'⟩
        · intro a user'
          rw [byte a user', written a user', length]
          by_cases last : (va / 4096 + 1) * 4096 ≤ a ∧ a < (va / 4096 + 1) * 4096 + (buf.length - k)
          · have place : k + (a - (va / 4096 + 1) * 4096) = a - va := by omega
            rw [if_pos last, if_pos (by omega), List.getD_eq_getElem?_getD, List.getElem?_drop, place,
              ← List.getD_eq_getElem?_getD]
          · rw [if_neg last]
            by_cases first : a / 4096 = va / 4096 ∧ va % 4096 ≤ a % 4096 ∧ a % 4096 < va % 4096 + k
            · have place : a % 4096 - va % 4096 = a - va := by omega
              rw [if_pos first, if_pos (by omega), place, List.getD_eq_getElem?_getD,
                List.getElem?_take_of_lt (by omega), ← List.getD_eq_getElem?_getD]
            · rw [if_neg first, if_neg (by omega)]
    · rw [if_neg more]
      refine ⟨fun i less => by omega, fun a _ => ?_⟩
      rw [if_neg (by omega)]

theorem copyout_copied {d n va : Nat} (hd : d ∈ live) (inv : FrameInv live own x s) (image : ImageInv s d n)
    (uint : va < 4294967296) {bs : List UInt8} (done : ¬ (s.copyout d va bs).1 < 0) :
    Copied d va bs s (s.copyout d va bs).2 :=
  copyoutLoop_copied hd (bs.length + 1) va bs s inv image uint (Nat.lt_succ_self _) done

def up4 (n : Nat) : Nat := (n + 3) / 4 * 4

def stringRoom : List (List UInt8) → Nat
  | [] => 0
  | arg :: args => up4 (arg.length + 1) + stringRoom args

def places : Nat → List (List UInt8) → List Nat
  | _, [] => []
  | sp, arg :: args => (sp - up4 (arg.length + 1)) :: places (sp - up4 (arg.length + 1)) args

omit [Layout] in
theorem places_length (sp : Nat) (args : List (List UInt8)) : (places sp args).length = args.length := by
  induction args generalizing sp with
  | nil => rfl
  | cons arg args ih => simp [places, ih]

omit [Layout] in
theorem places_inside {sp i p : Nat} {args : List (List UInt8)} {arg : List UInt8} (fits : stringRoom args ≤ sp)
    (here : args[i]? = some arg) (at_ : (places sp args)[i]? = some p) :
    sp - stringRoom args ≤ p ∧ p + arg.length + 1 ≤ sp := by
  induction args generalizing sp i with
  | nil => cases here
  | cons first args ih =>
    simp only [stringRoom] at fits ⊢
    cases i with
    | zero =>
      cases here
      cases at_
      simp only [up4] at *
      omega
    | succ i =>
      have fits' : stringRoom args ≤ sp - up4 (first.length + 1) := by omega
      have := ih fits' here at_
      omega

omit [Layout] in
theorem places_apart {sp i j p q : Nat} {args : List (List UInt8)} {a b : List UInt8} (fits : stringRoom args ≤ sp)
    (less : i < j) (first : args[i]? = some a) (second : args[j]? = some b) (at_ : (places sp args)[i]? = some p)
    (below : (places sp args)[j]? = some q) : q + b.length + 1 ≤ p := by
  induction args generalizing sp i j with
  | nil => cases first
  | cons arg args ih =>
    simp only [stringRoom] at fits
    cases j with
    | zero => omega
    | succ j =>
      cases i with
      | zero =>
        cases at_
        have rest : args[j]? = some b := second
        have fits' : stringRoom args ≤ sp - up4 (arg.length + 1) := by omega
        exact (places_inside fits' rest below).2
      | succ i =>
        have fits' : stringRoom args ≤ sp - up4 (arg.length + 1) := by omega
        exact ih fits' (by omega) first second at_ below

omit [Layout] in
/-- What is copied to the stack page and ends just below sp starts above the guard page. -/
theorem Copied.above {d g sp va : Nat} {bs : List UInt8} (copied : Copied d va bs s s')
    (guard : (s.pte d g).u = false) (low : 4096 * (g + 1) ≤ sp) (some : 0 < bs.length)
    (close : sp ≤ va + bs.length + 3) : 4096 * (g + 1) ≤ va := by
  by_contra under
  -- the last of the bytes below the stack page lies in the guard page
  have page : (va + (min (4096 * (g + 1) - 1) (va + bs.length - 1) - va)) / 4096 = g := by omega
  obtain ⟨-, open'⟩ := copied.inside (min (4096 * (g + 1) - 1) (va + bs.length - 1) - va) (by omega)
  rw [page, guard] at open'
  cases open'

structure Pushed (d : Nat) (args : List (List UInt8)) (sp : Nat) (s s' : Phys) : Prop where
  byte : ∀ a < KERNBASE, ¬ (sp - stringRoom args ≤ a ∧ a < sp) → s'.ubyte d a = s.ubyte d a
  string : ∀ (i p : Nat) (arg : List UInt8), args[i]? = some arg → (places sp args)[i]? = some p →
    ∀ j ≤ arg.length, s'.ubyte d (p + j) = (arg ++ [0]).getD j 0

theorem copyout_string {d n g sp : Nat} (hd : d ∈ live) (inv : FrameInv live own x s) (image : ImageInv s d n)
    (guard : (s.pte d g).u = false) (aligned : sp % 4 = 0) (low : 4096 * (g + 1) ≤ sp) (user : sp ≤ KERNBASE)
    {bs : List UInt8} (some : 0 < bs.length) (short : bs.length ≤ KERNBASE)
    (done : ¬ (s.copyout d ((sp + 4294967296 - bs.length % 4294967296) % 4294967296 / 4 * 4) bs).1 < 0) :
    (sp + 4294967296 - bs.length % 4294967296) % 4294967296 / 4 * 4 = sp - up4 bs.length ∧
      4096 * (g + 1) + up4 bs.length ≤ sp ∧
      Copied d (sp - up4 bs.length) bs s
        (s.copyout d ((sp + 4294967296 - bs.length % 4294967296) % 4294967296 / 4 * 4) bs).2 := by
  have copied := copyout_copied hd inv image (by omega) done
  have start := (copied.inside 0 some).1
  have place : (sp + 4294967296 - bs.length % 4294967296) % 4294967296 / 4 * 4 = sp - up4 bs.length ∧
      up4 bs.length ≤ sp := by
    simp only [up4, KERNBASE] at *
    omega
  refine ⟨place.1, ?_, ?_⟩
  · have above := copied.above guard low some (by simp only [up4] at place; omega)
    omega
  · rw [← place.1]
    exact copied

theorem pushArgs_pushed {d n g : Nat} (hd : d ∈ live) (args : List (List UInt8)) (sp : Nat) (ustack : List Nat)
    (s : Phys) (inv : FrameInv live own x s) (image : ImageInv s d n) (guard : (s.pte d g).u = false)
    (aligned : sp % 4 = 0) (low : 4096 * (g + 1) ≤ sp) (user : sp ≤ KERNBASE)
    (short : ∀ arg ∈ args, arg.length < KERNBASE) {sp' : Nat} {ustack' : List Nat}
    (done : Phys.pushArgs d args sp ustack s = (some (sp', ustack'), s')) :
    4096 * (g + 1) + stringRoom args ≤ sp ∧ sp' = sp - stringRoom args ∧ sp' % 4 = 0 ∧
      ustack' = ustack ++ places sp args ∧ Filled live own x d s s' ∧ Pushed d args sp s s' := by
  induction args generalizing sp ustack s with
  | nil =>
    cases done
    exact ⟨low, rfl, aligned, (List.append_nil _).symm, Filled.refl inv d, fun _ _ _ => rfl, nofun⟩
  | cons arg args ih =>
    rw [Phys.pushArgs] at done
    split at done
    · cases done
    simp only at done
    split at done
    · cases done
    rename_i fine
    have length : (arg ++ [0]).length = arg.length + 1 := by simp
    have filled : Filled live own x d s (s.copyout d _ (arg ++ [0])).2 :=
      copyoutLoop_spec hd _ ((sp + 4294967296 - (arg.length + 1) % 4294967296) % 4294967296 / 4 * 4) _ s inv image
    rw [← length] at done fine filled
    obtain ⟨place, fits, copied⟩ := copyout_string hd inv image guard aligned low user (by rw [length]; omega)
      (by rw [length]; exact short arg (by simp)) fine
    rw [place] at done copied filled
    generalize (s.copyout d (sp - up4 (arg ++ [0]).length) (arg ++ [0])).2 = s1 at done copied filled
    rw [length] at place fits copied done
    obtain ⟨room, same, aligned', list, filled', pushed⟩ := ih (sp - up4 (arg.length + 1))
      (ustack ++ [sp - up4 (arg.length + 1)]) s1 filled.inv (filled.image hd image)
      (by rw [filled.pte d hd]; exact guard) (by simp only [up4] at *; omega) (by omega) (by omega)
      (fun arg' member => short arg' (List.mem_cons_of_mem _ member)) done
    refine ⟨by simp only [stringRoom]; omega, by simp only [stringRoom]; omega, aligned', ?_, filled.trans filled', ?_, ?_⟩
    · rw [list, places, List.append_assoc, List.singleton_append]
    · intro a user' out
      simp only [stringRoom] at out
      rw [pushed.byte a user' (by omega), copied.byte a user', length, if_neg]
      simp only [up4] at *
      omega
    · intro i p arg' here at_ j inside
      cases i with
      | zero =>
        cases here
        cases at_
        have bounds : arg.length + 1 ≤ up4 (arg.length + 1) := by simp only [up4]; omega
        rw [pushed.byte _ (by omega) (by omega), copied.byte _ (by omega), length, if_pos (by omega)]
        congr 1
        omega
      | succ i => exact pushed.string i p arg' here at_ j inside

omit [Layout] in
theorem flatMap_word_length (l : List Nat) : (l.flatMap word).length = 4 * l.length := by
  induction l with
  | nil => rfl
  | cons n l ih =>
    rw [List.flatMap_cons, List.length_append, ih, List.length_cons]
    simp only [word, List.length_cons, List.length_nil]
    omega

omit [Layout] in
theorem flatMap_word_getD (l : List Nat) {k j : Nat} (inside : k < l.length) (byte : j < 4) :
    (l.flatMap word).getD (4 * k + j) 0 = (word (l.getD k 0)).getD j 0 := by
  induction l generalizing k with
  | nil => cases inside
  | cons n l ih =>
    have four : (word n).length = 4 := rfl
    rw [List.flatMap_cons, List.getD_eq_getElem?_getD]
    cases k with
    | zero => rw [List.getElem?_append_left (by omega), ← List.getD_eq_getElem?_getD, Nat.mul_zero, Nat.zero_add,
        List.getD_cons_zero]
    | succ k =>
      have place : 4 * (k + 1) + j - (word n).length = 4 * k + j := by omega
      rw [List.getElem?_append_right (by omega), place, ← List.getD_eq_getElem?_getD, List.getD_cons_succ]
      exact ih (Nat.lt_of_succ_lt_succ inside)

omit [Layout] in
theorem word_value {n : Nat} (uint : n < 4294967296) :
    ((word n).getD 0 0).toNat + 256 * (((word n).getD 1 0).toNat + 256 * (((word n).getD 2 0).toNat +
      256 * ((word n).getD 3 0).toNat)) = n := by
  simp only [word, List.getD_cons_zero, List.getD_cons_succ, UInt8.toNat_ofNat']
  omega

omit [Layout] in
theorem Copied.word {d va k : Nat} {l : List Nat} (copied : Copied d va (l.flatMap word) s s') (inside : k < l.length)
    (uint : l.getD k 0 < 4294967296) : s'.uword d (va + 4 * k) = l.getD k 0 := by
  have byte : ∀ j < 4, s'.ubyte d (va + 4 * k + j) = (Xv6.word (l.getD k 0)).getD j 0 := by
    intro j small
    have length := flatMap_word_length l
    have user := (copied.inside (4 * k + j) (by omega)).1
    rw [copied.byte _ (by omega), if_pos (by omega), ← flatMap_word_getD l inside small]
    congr 1
    omega
  rw [Phys.uword, byte 1 (by decide), byte 2 (by decide), byte 3 (by decide)]
  have first := byte 0 (by decide)
  rw [Nat.add_zero] at first
  rw [first]
  exact word_value uint

/-- The stack of a process about to start with the arguments argv: a return address, argc,
    the address of the vector, the vector, and the strings above it, all in the top page. -/
structure ArgStack (s : Phys) (d sz esp : Nat) (argv : List (List UInt8)) (strings : List Nat) : Prop where
  aligned : esp % 4 = 0
  top : sz - PGSIZE ≤ esp ∧ esp < sz
  count : strings.length = argv.length
  pc : s.uword d esp = 0xffffffff
  argc : s.uword d (esp + 4) = argv.length
  vector : s.uword d (esp + 8) = esp + 12
  entry : ∀ i p, strings[i]? = some p → s.uword d (esp + 12 + 4 * i) = p
  null : s.uword d (esp + 12 + 4 * argv.length) = 0
  string : ∀ (i p : Nat) (arg : List UInt8), argv[i]? = some arg → strings[i]? = some p →
    esp + 16 + 4 * argv.length ≤ p ∧ p + arg.length + 1 ≤ sz ∧
      ∀ j ≤ arg.length, s.ubyte d (p + j) = (arg ++ [0]).getD j 0
  apart : ∀ (i j p q : Nat) (a b : List UInt8), i < j → argv[i]? = some a → argv[j]? = some b →
    strings[i]? = some p → strings[j]? = some q → q + b.length + 1 ≤ p

def argRoom (argv : List (List UInt8)) : Nat := stringRoom argv + 4 * (argv.length + 4)

/-- The words below the strings, of which sz is the upper end. -/
def argWords (sz : Nat) (argv : List (List UInt8)) : List Nat :=
  [0xffffffff, argv.length, sz - stringRoom argv - 4 * (argv.length + 1)] ++ places sz argv ++ [0]

omit [Layout] in
theorem argWords_length (sz : Nat) (argv : List (List UInt8)) : (argWords sz argv).length = argv.length + 4 := by
  simp only [argWords, List.length_append, List.length_cons, List.length_nil, places_length]
  omega

omit [Layout] in
theorem argWords_entry {sz i p : Nat} {argv : List (List UInt8)} (at_ : (places sz argv)[i]? = some p) :
    (argWords sz argv).getD (i + 3) 0 = p := by
  change (places sz argv ++ [0]).getD i 0 = p
  have inside := (List.getElem?_eq_some_iff.mp at_).1
  rw [List.getD_eq_getElem?_getD, List.getElem?_append_left inside, at_]
  rfl

omit [Layout] in
theorem argWords_null (sz : Nat) (argv : List (List UInt8)) : (argWords sz argv).getD (argv.length + 3) 0 = 0 := by
  change (places sz argv ++ [0]).getD argv.length 0 = 0
  rw [List.getD_eq_getElem?_getD, List.getElem?_append_right (Nat.le_of_eq (places_length sz argv)), places_length,
    Nat.sub_self]
  rfl

omit [Layout] in
theorem ArgStack.of_pushed {d sz esp : Nat} {argv : List (List UInt8)} {s1 s2 s3 : Phys}
    (pushed : Pushed d argv sz s1 s2) (copied : Copied d esp ((argWords sz argv).flatMap word) s2 s3)
    (user : sz ≤ KERNBASE) (fits : argRoom argv ≤ PGSIZE) (large : PGSIZE ≤ sz) (low : esp = sz - argRoom argv)
    (aligned : esp % 4 = 0) (few : argv.length < MAXARG) : ArgStack s3 d sz esp argv (places sz argv) := by
  have length := argWords_length sz argv
  have bytes := flatMap_word_length (argWords sz argv)
  simp only [argRoom, PGSIZE, MAXARG, KERNBASE] at user fits large low few
  have room : stringRoom argv ≤ sz := by omega
  have word0 := copied.word (show 0 < _ by omega)
    (show (argWords sz argv).getD 0 0 < _ from show 0xffffffff < 4294967296 by decide)
  have word1 := copied.word (show 1 < _ by omega)
    (show (argWords sz argv).getD 1 0 < _ from show argv.length < 4294967296 by omega)
  have word2 := copied.word (show 2 < _ by omega)
    (show (argWords sz argv).getD 2 0 < _ from show sz - stringRoom argv - 4 * (argv.length + 1) < 4294967296 by omega)
  have null := copied.word (show argv.length + 3 < _ by omega) (by rw [argWords_null]; decide)
  rw [argWords_null] at null
  refine ⟨aligned, by simp only [PGSIZE]; omega, places_length .., word0, word1, ?_, ?_, ?_, ?_, ?_⟩
  · have value : (argWords sz argv).getD 2 0 = esp + 12 := by
      change sz - stringRoom argv - 4 * (argv.length + 1) = esp + 12
      omega
    rw [value] at word2
    exact word2
  · intro i p at_
    have inside := (List.getElem?_eq_some_iff.mp at_).1
    rw [places_length] at inside
    have small := (places_inside room (List.getElem?_eq_getElem inside) at_).2
    have entry := copied.word (show i + 3 < _ by omega) (by rw [argWords_entry at_]; omega)
    rw [argWords_entry at_, show esp + 4 * (i + 3) = esp + 12 + 4 * i by omega] at entry
    exact entry
  · rw [show esp + 4 * (argv.length + 3) = esp + 12 + 4 * argv.length by omega] at null
    exact null
  · intro i p arg here at_
    obtain ⟨above, below⟩ := places_inside room here at_
    refine ⟨by omega, below, fun j inside => ?_⟩
    -- the vector ends below the strings
    rw [copied.byte _ (by simp only [KERNBASE]; omega), if_neg (by omega)]
    exact pushed.string i p arg here at_ j inside
  · exact fun i j p q a b less first second at_ below => places_apart room less first second at_ below

structure Started (elf : Elfhdr) (ip : List UInt8) (argv : List (List UInt8)) (s : Phys) (image : Image)
    (s' : Phys) : Prop where
  room : argRoom argv ≤ PGSIZE
  small : image.sz < KERNBASE
  esp : image.esp = image.sz - argRoom argv
  stack : ArgStack s' image.pgdir image.sz image.esp argv (places image.sz argv)
  loaded : ∃ sz s1, Phys.loadSegments image.pgdir ip elf.phnum elf.phoff 0 s = .ok (some sz, s1) ∧
    image.sz = pgroundup sz + 2 * PGSIZE ∧ ∀ a < pgroundup sz, s'.ubyte image.pgdir a = s1.ubyte image.pgdir a

theorem buildImage_started {d : Nat} (hd : d ∈ live) (inv : FrameInv live own x s) (elf : Elfhdr)
    (ip : List UInt8) (argv : List (List UInt8)) (empty : ImageInv s d 0) (few : argv.length < MAXARG)
    (short : ∀ arg ∈ argv, arg.length < KERNBASE) {image : Image}
    (run : s.buildImage d elf ip argv = .ok (some image, s')) : Started elf ip argv s image s' := by
  obtain ⟨r, s1, load, apart1, loaded⟩ :=
    loadSegments_spec hd ip elf.phnum elf.phoff 0 s inv (Nat.zero_le _) empty
  rw [Phys.buildImage, load, ok_bind] at run
  cases r with
  | none => cases run
  | some sz =>
    obtain ⟨top, image1⟩ := loaded sz rfl
    simp only at run
    generalize base : pgroundup sz = g at run
    have shape : g % 4096 = 0 ∧ (g + 4095) / 4096 = (sz + 4095) / 4096 ∧ g ≤ KERNBASE := by
      simp only [pgroundup, PGSIZE, KERNBASE] at base top ⊢
      omega
    have plain : (g + 2 * PGSIZE) % 4294967296 = g + 2 * PGSIZE := by
      simp only [PGSIZE, KERNBASE] at shape ⊢
      omega
    rw [← shape.2.1] at image1
    obtain ⟨r, s2, stack, apart2, grown, keeps2⟩ := image1.allocuvm hd apart1.inv shape.2.2 (g + 2 * PGSIZE)
    rw [plain, stack, ok_bind] at run
    simp only at run
    by_cases zero : r = 0
    · rw [if_pos zero] at run
      cases run
    rw [if_neg zero] at run
    obtain ⟨-, -, exact', image2⟩ := grown zero
    obtain ⟨size, high⟩ := exact' (Nat.le_add_right _ _)
    have aligned : r - 2 * PGSIZE = g / 4096 * PGSIZE := by
      rw [size]
      simp only [PGSIZE]
      omega
    have inside : g / 4096 < (r + 4095) / 4096 := by
      rw [size]
      simp only [PGSIZE]
      omega
    obtain ⟨s3, guard, apart3, image3, closed, keeps3⟩ := image2.clearpteu hd apart2.inv
      (show g / 4096 < NUPAGES by simp only [KERNBASE, NUPAGES] at *; omega) inside
    rw [aligned, guard, ok_bind] at run
    have closed' : (s3.pte d (g / 4096)).u = false := by
      rw [closed _ (by simp only [KERNBASE] at *; omega), if_pos rfl]
    rcases push : Phys.pushArgs d argv r [] s3 with ⟨_ | ⟨sp, args⟩, s4⟩
    · rw [push] at run
      cases run
    rw [push] at run
    simp only at run
    obtain ⟨fits, rfl, aligned', rfl, filled4, pushed⟩ := pushArgs_pushed hd argv r [] s3 apart3.inv image3 closed'
      (by rw [size]; simp only [PGSIZE]; omega) (by rw [size]; simp only [PGSIZE]; omega) (Nat.le_of_lt high) short push
    rw [List.nil_append, places_length] at run
    have argc := few
    simp only [MAXARG] at argc
    have vector : (r - stringRoom argv + 4294967296 - (argv.length + 1) * 4) % 4294967296 =
        r - stringRoom argv - 4 * (argv.length + 1) := by
      simp only [KERNBASE] at high
      omega
    have pointer : (r - stringRoom argv + 4294967296 - (3 + argv.length + 1) * 4) % 4294967296 =
        r - argRoom argv := by
      simp only [KERNBASE, argRoom] at *
      omega
    rw [vector, pointer] at run
    change (if (s4.copyout d (r - argRoom argv) ((argWords r argv).flatMap word)).1 < 0 then _ else _) = _ at run
    by_cases failed : (s4.copyout d (r - argRoom argv) ((argWords r argv).flatMap word)).1 < 0
    · rw [if_pos failed] at run
      cases run
    rw [if_neg failed] at run
    have copied := copyout_copied hd filled4.inv (filled4.image hd image3) (by simp only [KERNBASE] at high; omega) failed
    cases run
    have bytes := flatMap_word_length (argWords r argv)
    rw [argWords_length] at bytes
    simp only [PGSIZE] at size
    have under : argRoom argv ≤ r := by
      simp only [argRoom]
      omega
    have above := copied.above (by rw [filled4.pte d hd]; exact closed')
      (show 4096 * (g / 4096 + 1) ≤ r - stringRoom argv by omega) (by omega) (by simp only [argRoom] at *; omega)
    have room : argRoom argv ≤ PGSIZE := by
      simp only [PGSIZE]
      omega
    refine ⟨room, high, rfl, ArgStack.of_pushed pushed copied (Nat.le_of_lt high) room ?_ rfl ?_ few, sz, s1, load,
      ?_, ?_⟩
    · simp only [PGSIZE]
      omega
    · simp only [argRoom]
      omega
    · simp only [base, PGSIZE]
      exact size
    · intro a low
      rw [base] at low
      have user : a < KERNBASE := Nat.lt_of_lt_of_le low shape.2.2
      have page : a / 4096 < NUPAGES := by
        simp only [NUPAGES, KERNBASE] at *
        omega
      refine (copied.byte a user).trans ?_
      rw [if_neg (by omega), pushed.byte a user (by omega)]
      simp only [Phys.ubyte]
      rw [keeps3.content hd page (fun both => by omega), keeps2.content hd page (fun both => by omega)]

theorem Started.transfer {elf : Elfhdr} {ip : List UInt8} {argv : List (List UInt8)} {image : Image} {s1 s2 : Phys}
    (started : Started elf ip argv s image s1)
    (same : ∀ a < KERNBASE, s2.ubyte image.pgdir a = s1.ubyte image.pgdir a) :
    Started elf ip argv s image s2 := by
  obtain ⟨room, small, esp, stack, sz, s0, load, size, loaded⟩ := started
  have low : image.esp + argRoom argv ≤ KERNBASE := by
    have := stack.top
    omega
  simp only [argRoom] at low
  have word : ∀ a, a + 4 ≤ KERNBASE → s2.uword image.pgdir a = s1.uword image.pgdir a := by
    intro a below
    rw [Phys.uword, Phys.uword, same _ (by omega), same _ (by omega), same _ (by omega), same _ (by omega)]
  refine ⟨room, small, esp, { stack with pc := ?_, argc := ?_, vector := ?_, entry := ?_, null := ?_, string := ?_ },
    sz, s0, load, size, ?_⟩
  · rw [word _ (by omega)]
    exact stack.pc
  · rw [word _ (by omega)]
    exact stack.argc
  · rw [word _ (by omega)]
    exact stack.vector
  · intro i p at_
    have inside := (List.getElem?_eq_some_iff.mp at_).1
    rw [places_length] at inside
    rw [word _ (by omega)]
    exact stack.entry i p at_
  · rw [word _ (by omega)]
    exact stack.null
  · intro i p arg here at_
    obtain ⟨above, below, copy⟩ := stack.string i p arg here at_
    refine ⟨above, below, fun j inside => ?_⟩
    rw [same _ (by omega)]
    exact copy j inside
  · intro a below
    rw [same _ (by omega)]
    exact loaded a below

theorem execImage_started (inv : FrameInv live own x s) {ip : List UInt8} {argv : List (List UInt8)} {image : Image}
    (few : argv.length < MAXARG) (short : ∀ arg ∈ argv, arg.length < KERNBASE)
    (run : s.execImage ip argv = .ok (some image, s')) :
    ∃ s1, s.setupkvm = .ok (some image.pgdir, s1) ∧
      Started (Elfhdr.decode (readi ip 0 ELFHDR).2) ip argv s1 image s' := by
  rw [Phys.execImage] at run
  simp only at run
  generalize Elfhdr.decode (readi ip 0 ELFHDR).2 = elf at run ⊢
  split at run
  · cases run
  split at run
  · cases run
  obtain ⟨r, s1, setup, outcome⟩ := setupkvm_spec inv
  rw [setup, ok_bind] at run
  cases outcome with
  | failed => cases run
  | made d _ fresh new free inv1 empty kernel keeps calm _ tables =>
    have hd := Finset.mem_insert_self d live
    have blank : ImageInv s1 d 0 :=
      ⟨fun vp _ low => absurd low (Nat.not_lt_zero vp), fun vp hv _ => empty vp hv,
        fun vp hv _ => kernel vp hv⟩
    obtain ⟨r, s2, build, apart, result⟩ := buildImage_spec hd inv1 elf ip argv blank
    simp only at run
    rw [build, ok_bind] at run
    cases r with
    | some image' =>
      cases run
      obtain ⟨rfl, -⟩ := result image rfl
      exact ⟨s1, setup, buildImage_started hd inv1 elf ip argv blank few short build⟩
    | none =>
      obtain ⟨s3, -, last⟩ := bind_eq_ok run
      cases last

/-- exec has put a new image in the place of t's: segments as the file says, and the stack. -/
structure Replaced (m : Mem) (p : Nat) (t : Tenant) (ip : List UInt8) (argv : List (List UInt8)) (image : Image)
    (m' : Mem) : Prop where
  slot : m'.slot p = some { t with space := ⟨image.pgdir, image.sz⟩ }
  started : ∃ s, m.phys.setupkvm = .ok (some image.pgdir, s) ∧
    Started (Elfhdr.decode (readi ip 0 ELFHDR).2) ip argv s image m'.phys

namespace Mem

/-- exec with what it leaves in the trap frame, or none for -1. -/
def execTrap (m : Mem) (p : Nat) (t : Tenant) (ip : List UInt8) (argv : List (List UInt8)) :
    Except Panic (Option Image × Mem) :=
  if m.pgdirUsers t.space.pgdir > 1 then .ok (none, m)
  else do
    match ← m.phys.execImage ip argv with
    | (none, s) => .ok (none, { m with phys := s })
    | (some image, s) =>
      let s ← s.freevm t.space.pgdir
      .ok (some image, { m with phys := s }.setSlot p (some { t with space := ⟨image.pgdir, image.sz⟩ }))

theorem execTrap_of_exec {m m' : Mem} {p : Nat} {t : Tenant} {ip : List UInt8} {argv : List (List UInt8)}
    (run : m.exec p t ip argv = .ok m') : ∃ r, m.execTrap p t ip argv = .ok (r, m') := by
  unfold exec at run
  unfold execTrap
  by_cases many : m.pgdirUsers t.space.pgdir > 1
  · rw [if_pos many] at run ⊢
    cases run
    exact ⟨none, rfl⟩
  rw [if_neg many] at run ⊢
  obtain ⟨⟨r, s⟩, load, rest⟩ := bind_eq_ok run
  rw [load, ok_bind]
  cases r with
  | none =>
    cases rest
    exact ⟨none, rfl⟩
  | some image =>
    obtain ⟨s2, free, last⟩ := bind_eq_ok rest
    cases last
    refine ⟨some image, ?_⟩
    simp only
    rw [free, ok_bind]

end Mem

theorem execTrap_spec {m : Mem} (inv : MemInv m) {p : Nat} {t : Tenant} (used : m.slot p = some t) (ip : List UInt8)
    (argv : List (List UInt8)) (few : argv.length < MAXARG) (short : ∀ arg ∈ argv, arg.length < KERNBASE) :
    ∃ r m', m.execTrap p t ip argv = .ok (r, m') ∧ ∀ image, r = some image → Replaced m p t ip argv image m' := by
  obtain ⟨m', run, -⟩ := exec_spec inv used ip argv
  obtain ⟨r, trap⟩ := Mem.execTrap_of_exec run
  refine ⟨r, m', trap, ?_⟩
  rintro image rfl
  unfold Mem.execTrap at trap
  split at trap
  · cases trap
  have hd := inv.tidy.dir_mem used
  obtain ⟨r, s1, load, outcome⟩ := execImage_spec inv.frames ip argv
  rw [load, ok_bind] at trap
  cases outcome with
  | bad => cases trap
  | built image' _ fresh new frames1 size pages guard keeps =>
    obtain ⟨s2, free, frames2, keeps2, -⟩ := freevm_spec frames1 (Finset.mem_insert_of_mem hd)
    simp only at trap
    rw [free, ok_bind] at trap
    cases trap
    have here : image.pgdir ∈ (insert image.pgdir m.dirs).erase t.space.pgdir :=
      Finset.mem_erase.mpr ⟨fun same => fresh (same ▸ hd), Finset.mem_insert_self ..⟩
    obtain ⟨s0, setup, started⟩ := execImage_started inv.frames few short load
    refine ⟨Function.update_self .., s0, setup, started.transfer fun a user => ?_⟩
    have page : a / 4096 < NUPAGES := by
      simp only [NUPAGES, KERNBASE] at *
      omega
    exact congrFun (keeps2.content here page not_false) _

/-- exec either fails or leaves the argument vector in the one page above the guard page
    and every loaded byte as it was loaded. -/
theorem exec_arguments {m : Mem} (reach : m.Reachable) {p : Nat} {t : Tenant} (used : m.slot p = some t)
    (ip : List UInt8) (argv : List (List UInt8)) (few : argv.length < MAXARG)
    (strings : ∀ arg ∈ argv, arg.length < t.space.sz) :
    ∃ r m', m.execTrap p t ip argv = .ok (r, m') ∧ ∀ image, r = some image → Replaced m p t ip argv image m' :=
  execTrap_spec reach.inv used ip argv few
    fun arg member => (strings arg member).trans (reach.inv.tidy.small p t used)

theorem StackTakes.singleton (c : UInt8) : StackTakes [[c]] := by
  intro live own x s d n hd inv image present user
  have copy : (s.copyout d 8188 ([c] ++ [0])).1 = 0 := copyout_page present user (by decide) (by simp)
  have filled : Filled live own x d s (s.copyout d 8188 ([c] ++ [0])).2 := copyoutLoop_spec hd _ _ _ s inv image
  rw [← filled.pte d hd] at present user
  refine ⟨8188, [8188], (s.copyout d 8188 ([c] ++ [0])).2, ?_, ?_⟩
  · have place : (8192 + 4294967296 - ([c].length + 1) % 4294967296) % 4294967296 / 4 * 4 = 8188 := by
      rw [List.length_singleton]
    rw [Phys.pushArgs, if_neg (by decide)]
    simp only [place]
    rw [if_neg (by rw [copy]; decide)]
    rfl
  · exact copyout_page present user (by decide) (by decide)

end

/-- init starts a bare file with one argument. -/
theorem exec_arguments_bare : ∃ _ : Layout, ∃ (m : Mem) (t : Tenant) (image : Image) (m' : Mem), m.Reachable ∧
    m.slot 0 = some t ∧ m.execTrap 0 t bareElf [[0x61]] = .ok (some image, m') ∧ image.sz = 8192 ∧
    image.esp = 8168 ∧ m'.phys.uword image.pgdir 8180 = 8188 ∧ m'.phys.ubyte image.pgdir 8188 = 0x61 := by
  let _ := Layout.small
  obtain ⟨m, t, loaded⟩ := Mem.loaded_exists (by decide)
  have room := loaded.small.room loaded.reach.inv
  rw [Finset.card_singleton] at room
  have frames : NFRAMES = 57344 := rfl
  have first : Layout.small.kend = 300 := rfl
  obtain ⟨image, s1, load, size⟩ := execImage_bare loaded.reach.inv.frames
    (show 1027 ≤ _ by rw [frames, first] at room; omega) (StackTakes.singleton 0x61)
  obtain ⟨r, m', run, replaced⟩ := exec_arguments loaded.reach loaded.used bareElf [[0x61]] (by decide)
    (by rw [loaded.size]; decide)
  have single := loaded.small.single t.space.pgdir
  have done : r = some image := by
    rw [Mem.execTrap, if_neg (by omega), load, ok_bind] at run
    obtain ⟨s2, -, last⟩ := bind_eq_ok run
    cases last
    rfl
  obtain ⟨-, s0, -, started⟩ := replaced image done
  have esp := started.esp
  rw [size] at esp
  have stack := started.stack
  rw [size, esp] at stack
  refine ⟨Layout.small, m, t, image, m', loaded.reach, loaded.used, by rw [← done]; exact run, size, esp,
    stack.entry 0 8188 rfl, ?_⟩
  obtain ⟨-, -, copy⟩ := stack.string 0 8188 [0x61] rfl rfl
  exact copy 0 (by decide)

end Xv6
