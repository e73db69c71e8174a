import MiniLisp.Proofs.Natives
import MiniLisp.Proofs.Observation
import MiniLisp.Proofs.ZeroSigns

/-!
# Equality of values as an equivalence

Two values are equal if and only if the same remains of them when what equality does not look at is
forgotten. So equality is an equivalence, and a test for identity in front of it changes no answer. A
call that compares its first argument with the others compares them all with each other.
-/

namespace MiniLisp

namespace Value

mutual

/-- What equality sees of a value: of a NaN its mark, of another number not the sign of a zero, of a
closure its identity. -/
def essence : Value → Value
  | .boolean b => .boolean b
  | .number x mark =>
    .number (if x.isNaN then .nan else x.dropZeroSign) (if x.isNaN then mark else 0)
  | .string s => .string s
  | .symbol name => .symbol name
  | .nil => .nil
  | .list items => .list (essences items)
  | .closure id _ _ _ => .closure id [] .nil 0
  | .native op home => .native op home

def essences : List Value → List Value
  | [] => []
  | item :: items => item.essence :: essences items

end

variable {v w : Value}

theorem equal_of_kind_ne (h : v.kind ≠ w.kind) : v.equal w = false := by
  cases v <;> cases w <;> first | rfl | exact absurd rfl h

theorem equal_number_iff {x y : Double} {m n : Nat} :
    (number x m).equal (number y n) = true ↔ (number x m).essence = (number y n).essence := by
  have hnan (z : Double) (hz : z.isNaN = false) : z.dropZeroSign ≠ .nan := fun h ↦ by
    have hdrop := Double.isNaN_dropZeroSign z
    rw [h, hz] at hdrop
    exact absurd hdrop (by decide)
  rw [equal, essence, essence]
  cases hx : x.isNaN <;> cases hy : y.isNaN
  · simp [Double.equal_iff hx hy, Double.Matches]
  · simp [Double.equal, hy, hnan x hx]
  · simp [Double.equal, hx, (hnan y hy).symm]
  · simp [Double.equal, hx]

theorem equalItems_iff {items others : List Value}
    (h : ∀ item ∈ items, ∀ w, item.equal w = true ↔ item.essence = w.essence) :
    equalItems items others = true ↔ essences items = essences others := by
  induction items generalizing others with
  | nil => cases others <;> simp [equalItems, essences]
  | cons item items ih =>
      obtain ⟨hhead, htail⟩ := List.forall_mem_cons.mp h
      cases others with
      | nil => simp [equalItems, essences]
      | cons w others => simp [equalItems, essences, hhead, ih htail]

/-- Values are equal if and only if equality sees the same of them. -/
theorem equal_iff_essence_eq : v.equal w = true ↔ v.essence = w.essence := by
  induction v using Value.induct generalizing w with
  | number x mark =>
      cases w with
      | number y n => exact equal_number_iff
      | boolean | string | symbol | nil | list | closure | native => simp [equal, essence]
  | list items ih =>
      cases w with
      | list others =>
          rw [equal, equalItems_iff fun item hitem w ↦ ih item hitem, essence, essence,
            Value.list.injEq]
      | boolean | number | string | symbol | nil | closure | native => simp [equal, essence]
  | boolean | string | symbol | nil | closure | native => cases w <;> simp [equal, essence]

theorem equivalence_equal : Equivalence fun v w : Value ↦ v.equal w = true where
  refl _ := equal_iff_essence_eq.mpr rfl
  symm h := equal_iff_essence_eq.mpr (equal_iff_essence_eq.mp h).symm
  trans h h' := equal_iff_essence_eq.mpr
    ((equal_iff_essence_eq.mp h).trans (equal_iff_essence_eq.mp h'))

section Identity

/-- Values that are one object: NaNs with one mark, closures with one identity, and native functions
of one root. -/
def identified : Value → Value → Bool
  | .number x m, .number y n => x.isNaN && y.isNaN && m == n
  | .closure i _ _ _, .closure j _ _ _ => i == j
  | .native p f, .native q g => p == q && f == g
  | _, _ => false

/-- A test for being one object. Other values than those may be shared or copied, but one object has
one value. -/
structure Identity (same : Value → Value → Bool) : Prop where
  of_identified : ∀ {v w}, identified v w = true → same v w = true
  eq_or_identified : ∀ {v w}, same v w = true → v = w ∨ identified v w = true

mutual

/-- Compares values by what they are made of, unless they are one object; numbers are compared as
numbers, so that a NaN equals nothing, and functions are never equal. -/
def equalUnless (same : Value → Value → Bool) (v w : Value) : Bool :=
  same v w ||
    match v, w with
    | .boolean a, .boolean b => a == b
    | .number x _, .number y _ => x.equal y
    | .string a, .string b => a == b
    | .symbol a, .symbol b => a == b
    | .nil, .nil => true
    | .list xs, .list ys => equalItemsUnless same xs ys
    | _, _ => false

def equalItemsUnless (same : Value → Value → Bool) : List Value → List Value → Bool
  | [], [] => true
  | x :: xs, y :: ys => equalUnless same x y && equalItemsUnless same xs ys
  | _, _ => false

end

theorem equal_of_identified (h : v.identified w = true) : v.equal w = true := by
  cases v <;> cases w <;> simp_all [identified, equal]

variable {same : Value → Value → Bool}

theorem equalUnless_of_same (h : Identity same) (hsame : same v w = true) :
    equalUnless same v w = v.equal w := by
  rw [equalUnless.eq_def, hsame, Bool.true_or]
  rcases h.eq_or_identified hsame with rfl | hid
  · exact (equivalence_equal.refl v).symm
  · exact (equal_of_identified hid).symm

theorem equalItemsUnless_eq {items others : List Value}
    (h : ∀ item ∈ items, ∀ w, equalUnless same item w = item.equal w) :
    equalItemsUnless same items others = equalItems items others := by
  induction items generalizing others with
  | nil => cases others <;> rfl
  | cons item items ih =>
      obtain ⟨hhead, htail⟩ := List.forall_mem_cons.mp h
      cases others with
      | nil => rfl
      | cons w others => rw [equalItemsUnless, equalItems, hhead, ih htail]

/-- Looking first whether two values are one object changes no answer, whatever is shared. -/
theorem equalUnless_eq (h : Identity same) (v w : Value) : equalUnless same v w = v.equal w := by
  induction v using Value.induct generalizing w with
  | list items ih =>
      cases hsame : same (.list items) w with
      | true => exact equalUnless_of_same h hsame
      | false =>
          rw [equalUnless.eq_def, hsame, Bool.false_or]
          cases w with
          | list others => exact equalItemsUnless_eq ih
          | boolean | number | string | symbol | nil | closure | native => rfl
  | boolean | number | string | symbol | nil | closure | native =>
      cases hsame : same _ w with
      | true => exact equalUnless_of_same h hsame
      | false =>
          have hid := mt h.of_identified (Bool.eq_false_iff.mp hsame)
          rw [equalUnless.eq_def, hsame, Bool.false_or]
          cases w <;> simp_all [identified, equal]

end Identity

end Value

namespace Primitive

variable {args : List Value}

theorem allEqual_iff : allEqual args = true ↔ ∀ v ∈ args, ∀ w ∈ args, v.equal w = true := by
  cases args with
  | nil => simp [allEqual]
  | cons first others =>
      rw [allEqual, List.all_eq_true]
      constructor
      · intro h
        have hfirst : ∀ v ∈ first :: others, first.equal v = true :=
          List.forall_mem_cons.mpr ⟨Value.equivalence_equal.refl first, h⟩
        exact fun v hv w hw ↦
          Value.equivalence_equal.trans (Value.equivalence_equal.symm (hfirst v hv)) (hfirst w hw)
      · exact fun h w hw ↦ h first List.mem_cons_self w (List.mem_cons_of_mem first hw)

theorem allEqual_perm {others : List Value} (h : args.Perm others) :
    allEqual args = allEqual others := by
  rw [Bool.eq_iff_iff, allEqual_iff, allEqual_iff]
  simp only [h.mem_iff]

theorem call_equals (home : FrameId) (h : args ≠ []) :
    equals.call home args = pure (.boolean (allEqual args)) := by
  have hfits : equals.Fits args := List.ne_nil_iff_exists_cons.mp h
  rw [call, reply_of_accepts (accepts_iff_fits.mpr hfits)]
  rfl

end Primitive

end MiniLisp
