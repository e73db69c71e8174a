import MiniLisp.Proofs.Laws
import MiniLisp.Proofs.Observation
import MiniLisp.Proofs.ZeroSigns
import MiniLisp.Repl

/-!
# When native functions fail

An argument count outside the arity is refused first. Then arguments of a wrong kind are, the
leftmost one that is no number before any zero that is divided by. Everything else is answered with a
value. Only `log` writes a line, and no call touches a frame. A root frame binds these functions and
no others.
-/

namespace MiniLisp

namespace Double

variable {x : Double}

/-- A finite number with no fractional part: its units are those of a natural number. -/
def IsWhole (x : Double) : Prop := x.isFinite = true ∧ ∃ n : Nat, x.units = n * twoTo 1074

theorem whole?_eq_none_iff : x.whole? = none ↔ ¬x.IsWhole := by
  have hdvd : x.units % twoTo 1074 = 0 ↔ ∃ n : Nat, x.units = n * twoTo 1074 := by
    rw [← Nat.dvd_iff_mod_eq_zero]
    exact exists_congr fun n ↦ by rw [Nat.mul_comm]
  rw [whole?, IsWhole, ← hdvd, ite_eq_right_iff, Bool.and_eq_true_iff, beq_iff_eq]
  exact imp_congr_right fun _ ↦ iff_false_intro (Option.some_ne_none _)

theorem isZero_iff : x.isZero = true ↔ x = .zero ∨ x = -.zero := by
  constructor
  · intro h
    have hmagnitude : x.magnitude = 0 := eq_of_beq h
    have hx := ofMagnitude_magnitude x
    rw [hmagnitude] at hx
    cases hsign : x.negative with
    | false => exact .inl (by rw [← hx, hsign]; rfl)
    | true => exact .inr (by rw [← hx, hsign]; rfl)
  · rintro (rfl | rfl) <;> rfl

end Double

namespace Primitive

/-- The functions that take numbers only. -/
def takesNumbers : Primitive → Bool
  | .add | .sub | .mul | .div | .less | .greater | .lessEq | .greaterEq => true
  | _ => false

/-- What is wrong with the arguments of a function that admits as many, and the error for it. -/
inductive Fault : Primitive → List Value → EvalError → Prop
  | number {op : Primitive} {before after : List Value} {v : Value} (hop : op.takesNumbers = true)
      (hbefore : ∀ w ∈ before, w.kind = .number) (hv : v.kind ≠ .number) :
      Fault op (before ++ v :: after) (.typeMismatch op.name .number v)
  | zero {args : List Value} {x : Double} {mark : Nat} (hargs : ∀ v ∈ args, v.kind = .number)
      (hmem : .number x mark ∈ divisors args) (hx : x = .zero ∨ x = -.zero) :
      Fault div args (.divisionByZero div.name)
  | item {op : Primitive} {v : Value} (hop : op = first ∨ op = rest) (hv : v.kind ≠ .list) :
      Fault op [v] (.typeMismatch op.name .list v)
  | length {v : Value} (hlist : v.kind ≠ .list) (hstring : v.kind ≠ .string) :
      Fault length [v] (.typeMismatch length.name .list v)
  | cons {v tail : Value} (hnil : tail.kind ≠ .nil) (hlist : tail.kind ≠ .list) :
      Fault cons [v, tail] (.typeMismatch cons.name .list tail)
  | nthList {v index : Value} (hv : v.kind ≠ .list) :
      Fault nth [v, index] (.typeMismatch nth.name .list v)
  | nthIndex {v index : Value} (hv : v.kind = .list)
      (hindex : ∀ x mark, index = .number x mark → ¬x.IsWhole) :
      Fault nth [v, index] (.typeMismatch nth.name .wholeNumberIndex index)

variable {op : Primitive} {args : List Value} {e : EvalError}

section Checks

theorem toDouble?_eq_none_iff {v : Value} : v.toDouble? = none ↔ v.kind ≠ .number := by
  cases v <;> simp [Value.toDouble?, Value.kind]

theorem toList?_eq_none_iff {v : Value} : v.toList? = none ↔ v.kind ≠ .list := by
  cases v <;> simp [Value.toList?, Value.kind]

theorem exists_number_of_kind {v : Value} (h : v.kind = .number) :
    ∃ x mark, v = .number x mark := by
  cases v with
  | number x mark => exact ⟨x, mark, rfl⟩
  | boolean | string | symbol | nil | list | closure | native => cases h

theorem exists_list_of_kind {v : Value} (h : v.kind = .list) : ∃ vs, v = .list vs := by
  cases v with
  | list vs => exact ⟨vs, rfl⟩
  | boolean | number | string | symbol | nil | closure | native => cases h

theorem numbers_of_kind (h : ∀ v ∈ args, v.kind = .number) :
    op.numbers args = .ok (args.map fun v ↦ v.toDouble?.getD .zero) := by
  induction args with
  | nil => rfl
  | cons v args ih =>
      obtain ⟨hhead, htail⟩ := List.forall_mem_cons.mp h
      obtain ⟨x, mark, rfl⟩ := exists_number_of_kind hhead
      rw [numbers, ih htail]
      rfl

/-- The leftmost argument that is no number is to blame. -/
theorem numbers_append_cons {before after : List Value} {v : Value}
    (hbefore : ∀ w ∈ before, w.kind = .number) (hv : v.kind ≠ .number) :
    op.numbers (before ++ v :: after) = .error (.typeMismatch op.name .number v) := by
  induction before with
  | nil => rw [List.nil_append, numbers, toDouble?_eq_none_iff.mpr hv]
  | cons w before ih =>
      obtain ⟨hhead, htail⟩ := List.forall_mem_cons.mp hbefore
      obtain ⟨x, mark, rfl⟩ := exists_number_of_kind hhead
      rw [List.cons_append, numbers, ih htail]
      rfl

/-- Either the arguments are all numbers, or there is a leftmost one that is none. -/
theorem numbers_or_leftmost (args : List Value) : (∀ v ∈ args, v.kind = .number) ∨
    ∃ before v after, args = before ++ v :: after ∧ (∀ w ∈ before, w.kind = .number) ∧
      v.kind ≠ .number := by
  induction args with
  | nil => exact .inl (List.forall_mem_nil _)
  | cons v args ih =>
      by_cases hv : v.kind = .number
      · rcases ih with hall | ⟨before, w, after, rfl, hbefore, hw⟩
        · exact .inl (List.forall_mem_cons.mpr ⟨hv, hall⟩)
        · exact .inr ⟨v :: before, w, after, rfl, List.forall_mem_cons.mpr ⟨hv, hbefore⟩, hw⟩
      · exact .inr ⟨[], v, args, rfl, List.forall_mem_nil _, hv⟩

theorem fault_of_numbers (hop : op.takesNumbers = true) (h : op.numbers args = .error e) :
    Fault op args e := by
  rcases numbers_or_leftmost args with hall | ⟨before, v, after, rfl, hbefore, hv⟩
  · rw [numbers_of_kind hall] at h
    cases h
  · rw [numbers_append_cons hbefore hv] at h
    cases h
    exact .number hop hbefore hv

theorem items_eq_error_iff {v : Value} :
    op.items v = .error e ↔ v.kind ≠ .list ∧ e = .typeMismatch op.name .list v := by
  rw [← toList?_eq_none_iff, items]
  cases v.toList? <;> simp [eq_comm]

theorem items_eq_ok_iff {v : Value} {vs : List Value} : op.items v = .ok vs ↔ v = .list vs := by
  cases v <;> simp [items, Value.toList?]

theorem divisors_map {α β : Type} (f : α → β) (xs : List α) :
    divisors (xs.map f) = (divisors xs).map f := by
  rcases xs with - | ⟨x, - | ⟨y, ys⟩⟩ <;> rfl

theorem mem_of_mem_divisors {α : Type} {x : α} {xs : List α} (h : x ∈ divisors xs) : x ∈ xs := by
  rcases xs with - | ⟨y, - | ⟨z, zs⟩⟩
  · exact h
  · exact h
  · exact List.mem_cons_of_mem y h

end Checks

section Faults

theorem fault_of_div (h : div.answer args = .error e) : Fault div args e := by
  rcases error_of_bind h with h | ⟨xs, hxs, h⟩
  · exact fault_of_numbers rfl h
  rcases error_of_bind h with h | ⟨x, -, h⟩
  · obtain ⟨⟨x, hx, hzero⟩, rfl⟩ := quotient_eq_error_iff.mp h
    -- the zero is one of the arguments only once they all are numbers
    rcases numbers_or_leftmost args with hall | ⟨before, v, after, rfl, hbefore, hv⟩
    · rw [numbers_of_kind hall] at hxs
      cases hxs
      rw [divisors_map] at hx
      obtain ⟨v, hv, rfl⟩ := List.mem_map.mp hx
      obtain ⟨x, mark, rfl⟩ := exists_number_of_kind (hall v (mem_of_mem_divisors hv))
      exact .zero hall hv (Double.isZero_iff.mp hzero)
    · rw [numbers_append_cons hbefore hv] at hxs
      cases hxs
  · cases h

theorem fault_of_nth {v index : Value} (h : nth.answer [v, index] = .error e) :
    Fault nth [v, index] e := by
  rcases error_of_bind h with h | ⟨vs, hvs, h⟩
  · obtain ⟨hv, rfl⟩ := items_eq_error_iff.mp h
    exact .nthList hv
  split at h
  · cases h
  next hindex =>
    cases h
    refine .nthIndex (congrArg Value.kind (items_eq_ok_iff.mp hvs)) fun x mark heq ↦ ?_
    rw [heq] at hindex
    exact Double.whole?_eq_none_iff.mp hindex

theorem answer_of_number {before after : List Value} {v : Value} (hop : op.takesNumbers = true)
    (hbefore : ∀ w ∈ before, w.kind = .number) (hv : v.kind ≠ .number) :
    op.answer (before ++ v :: after) = .error (.typeMismatch op.name .number v) := by
  have hnumbers : op.numbers (before ++ v :: after) = .error (.typeMismatch op.name .number v) :=
    numbers_append_cons hbefore hv
  cases op with
  | add | sub | mul | less | greater | lessEq | greaterEq => exact map_eq_error_iff.mpr hnumbers
  | div =>
      rw [answer, hnumbers]
      rfl
  | equals | not | first | rest | nth | length | cons | log => cases hop

theorem answer_of_zero {x : Double} {mark : Nat} (hargs : ∀ v ∈ args, v.kind = .number)
    (hmem : .number x mark ∈ divisors args) (hx : x = .zero ∨ x = -.zero) :
    div.answer args = .error (.divisionByZero div.name) := by
  have hquotient : quotient (args.map fun v ↦ v.toDouble?.getD .zero) =
      .error (.divisionByZero div.name) := by
    refine quotient_eq_error_iff.mpr ⟨⟨x, ?_, Double.isZero_iff.mpr hx⟩, rfl⟩
    rw [divisors_map]
    exact List.mem_map.mpr ⟨_, hmem, rfl⟩
  rw [answer, numbers_of_kind hargs]
  change (quotient _ >>= _) = _
  rw [hquotient]
  rfl

theorem answer_of_index {v index : Value} (hv : v.kind = .list)
    (hindex : ∀ x mark, index = .number x mark → ¬x.IsWhole) :
    nth.answer [v, index] = .error (.typeMismatch nth.name .wholeNumberIndex index) := by
  have hnone : index.toDouble?.bind Double.whole? = none := by
    cases index with
    | number x mark => exact Double.whole?_eq_none_iff.mpr (hindex x mark rfl)
    | boolean | string | symbol | nil | list | closure | native => rfl
  obtain ⟨vs, rfl⟩ := exists_list_of_kind hv
  rw [answer, items_eq_ok_iff.mpr rfl]
  simp only [bind, Except.bind, hnone]
  rfl

end Faults

/-- The function complains about arguments of an admitted count if and only if they have a fault. -/
theorem answer_eq_error_iff : op.answer args = .error e ↔ Fault op args e := by
  constructor
  · intro h
    rw [answer.eq_def] at h
    -- The cases stand in the order of the definition.
    split at h
    case h_1 | h_2 | h_3 | h_6 | h_7 | h_8 | h_9 =>
      exact fault_of_numbers rfl (map_eq_error_iff.mp h)
    case h_4 => exact fault_of_div h
    case h_11 | h_12 =>
      obtain ⟨hv, rfl⟩ := items_eq_error_iff.mp (map_eq_error_iff.mp h)
      exact .item (by simp) hv
    case h_13 => exact fault_of_nth h
    case h_15 v hstring =>
      obtain ⟨hv, rfl⟩ := items_eq_error_iff.mp (map_eq_error_iff.mp h)
      refine .length hv ?_
      cases v <;> simp_all [Value.kind]
    case h_17 v tail hnil =>
      obtain ⟨hv, rfl⟩ := items_eq_error_iff.mp (map_eq_error_iff.mp h)
      refine .cons ?_ hv
      cases tail <;> simp_all [Value.kind]
    all_goals cases h
  · intro h
    cases h with
    | number hop hbefore hv => exact answer_of_number hop hbefore hv
    | zero hargs hmem hx => exact answer_of_zero hargs hmem hx
    | item hop hv =>
        rcases hop with rfl | rfl
        · exact map_eq_error_iff.mpr (items_eq_error_iff.mpr ⟨hv, rfl⟩)
        · exact map_eq_error_iff.mpr (items_eq_error_iff.mpr ⟨hv, rfl⟩)
    | @length v hlist hstring =>
        rw [answer]
        · exact map_eq_error_iff.mpr (items_eq_error_iff.mpr ⟨hlist, rfl⟩)
        · rintro s rfl
          exact hstring rfl
    | cons hnil hlist =>
        rw [answer]
        · exact map_eq_error_iff.mpr (items_eq_error_iff.mpr ⟨hlist, rfl⟩)
        · rintro rfl
          exact hnil rfl
    | nthList hv =>
        rw [answer, items_eq_error_iff.mpr ⟨hv, rfl⟩]
        rfl
    | @nthIndex v index hv hindex => exact answer_of_index hv hindex

section Calls

/-- The call returns a value. It leaves the frames as they are, and the output too unless it is there
to write a line. -/
def Returns (op : Primitive) (home : FrameId) (args : List Value) (s : Store) : Prop :=
  ∃ v t, (op.call home args).run s = .ok v t ∧ t.frames = s.frames ∧
    t.output = if op = log then
      s.output.push ⟨home, " ".intercalate (args.map (·.render .person))⟩ else s.output

variable {r : Reply} (home : FrameId) (s : Store)

theorem ne_line_of_ne_log (hop : op ≠ log) (h : op.answer args = .ok r) (text : String) :
    r ≠ .line text := by
  rw [answer.eq_def] at h
  split at h
  case h_1 | h_2 | h_3 | h_6 | h_7 | h_8 | h_9 | h_11 | h_12 | h_15 | h_17 =>
    obtain ⟨_, -, rfl⟩ := ok_of_map h
    rintro ⟨⟩
  case h_4 =>
    obtain ⟨xs, -, h⟩ := ok_of_bind h
    obtain ⟨x, -, h⟩ := ok_of_bind h
    cases h
    rintro ⟨⟩
  case h_13 =>
    obtain ⟨vs, -, h⟩ := ok_of_bind h
    split at h
    · cases h
      rintro ⟨⟩
    · cases h
  case h_18 => exact absurd rfl hop
  all_goals
    cases h
    rintro ⟨⟩

theorem run_call_of_error (h : op.reply args = .error e) :
    (op.call home args).run s = .error e s := by
  rw [call, h]
  rfl

theorem returns_of_ok (h : op.answer args = .ok r) (hreply : op.reply args = .ok r) :
    op.Returns home args s := by
  rw [Returns, call, hreply]
  by_cases hop : op = log
  · subst hop
    cases h
    exact ⟨.nil, s.write home _, rfl, rfl, rfl⟩
  · rw [if_neg hop]
    cases r with
    | known v => exact ⟨v, s, rfl, rfl, rfl⟩
    | computed x =>
        by_cases hx : x.isNaN = true
        · refine ⟨.number x s.nextId, s.freshId.2, ?_, rfl, rfl⟩
          simp only [Eval.number, if_pos hx]
          rfl
        · refine ⟨.number x 0, s, ?_, rfl, rfl⟩
          simp only [Eval.number, if_neg hx]
          rfl
    | line text => exact absurd rfl (ne_line_of_ne_log hop h text)

end Calls

theorem not_fault_of_lenient (hop : op = equals ∨ op = not ∨ op = log) : ¬Fault op args e := by
  intro h
  cases h with
  | number hnumbers =>
      rcases hop with rfl | rfl | rfl
      all_goals cases hnumbers
  | item hitem => rcases hitem with rfl | rfl <;> simp at hop
  | zero | length | cons | nthList | nthIndex => simp at hop

/-- The call fails where the arguments are complained about, and then nothing else happens. -/
theorem run_call_eq_error_iff {home : FrameId} {s t : Store}
    (hreturns : ∀ r, op.reply args = .ok r → op.Returns home args s) :
    (op.call home args).run s = .error e t ↔ op.reply args = .error e ∧ t = s := by
  cases hreply : op.reply args with
  | error e' =>
      rw [run_call_of_error home s hreply]
      simp [eq_comm]
  | ok r =>
      obtain ⟨v, u, hrun, -, -⟩ := hreturns r hreply
      simp [hrun]

theorem mem_all (op : Primitive) : op ∈ all := by
  cases op <;> decide

end Primitive

theorem bindName_of_new {name : String} {bound : List (String × Value)}
    (h : name ∉ bound.map Prod.fst) (v : Value) :
    bindName name v bound = bound ++ [(name, v)] := by
  induction bound with
  | nil => rfl
  | cons pair bound ih =>
      obtain ⟨hne, hnew⟩ := not_or.mp (mt List.mem_cons.mpr h)
      rw [bindName, if_neg (Ne.symm hne), ih hnew, List.cons_append]

/-- Names that are all different end up bound in their order. -/
theorem foldl_bindName {bound pairs : List (String × Value)}
    (h : ((bound ++ pairs).map Prod.fst).Nodup) :
    pairs.foldl (fun bound pair ↦ bindName pair.1 pair.2 bound) bound = bound ++ pairs := by
  induction pairs generalizing bound with
  | nil => rw [List.foldl_nil, List.append_nil]
  | cons pair pairs ih =>
      have hnew : pair.1 ∉ bound.map Prod.fst := by
        rw [List.map_append, List.nodup_append] at h
        exact fun hmem ↦ h.2.2 _ hmem _ List.mem_cons_self rfl
      rw [List.append_cons] at h ⊢
      rw [List.foldl_cons, bindName_of_new hnew, ih h]

namespace Store

variable {s : Store} {f : FrameId}

theorem bindings_define (hf : f < s.frames.size) (name : String) (v : Value) :
    (s.define f name v).bindings f = bindName name v (s.bindings f) := by
  rw [bindings, frames_define, bindings, Array.getElem?_eq_getElem hf, Option.map_some, if_pos rfl]

theorem bindings_defineAll (hf : f < s.frames.size) (pairs : List (String × Value)) :
    (s.defineAll f pairs).bindings f =
      pairs.foldl (fun bound pair ↦ bindName pair.1 pair.2 bound) (s.bindings f) := by
  induction pairs generalizing s with
  | nil => rfl
  | cons pair pairs ih =>
      have hsize : f < (s.define f pair.1 pair.2).frames.size := by rwa [size_define]
      rw [defineAll, List.foldl_cons, ← defineAll, ih hsize, bindings_define hf]
      rfl

theorem bindings_defineAll_newFrame (s : Store) (parent : Option FrameId)
    (pairs : List (String × Value)) :
    ((s.newFrame parent).2.defineAll s.frames.size pairs).bindings s.frames.size =
      pairs.foldl (fun bound pair ↦ bindName pair.1 pair.2 bound) [] := by
  have hframe : s.frames.size < (s.newFrame parent).2.frames.size := by simp [newFrame]
  have hempty : (s.newFrame parent).2.bindings s.frames.size = [] := by simp [newFrame, bindings]
  rw [bindings_defineAll hframe, hempty]

/-- A new root frame binds the native functions and nothing else. -/
theorem bindings_newRoot (s : Store) : s.newRoot.2.bindings s.newRoot.1 =
    Primitive.all.map fun op ↦ (op.name, .native op s.newRoot.1) := by
  have hnames : (Primitive.all.map Primitive.name).Nodup := by decide +kernel
  rw [newRoot]
  change ((s.newFrame none).2.defineAll s.frames.size _).bindings s.frames.size = _
  rw [bindings_defineAll_newFrame, foldl_bindName (by rwa [List.nil_append, List.map_map])]
  rfl

theorem mem_bindings_newRoot (s : Store) (name : String) (v : Value) :
    (name, v) ∈ s.newRoot.2.bindings s.newRoot.1 ↔
      ∃ op : Primitive, name = op.name ∧ v = .native op s.newRoot.1 := by
  rw [bindings_newRoot, List.mem_map]
  constructor
  · rintro ⟨op, -, ⟨⟩⟩
    exact ⟨op, rfl, rfl⟩
  · rintro ⟨op, rfl, rfl⟩
    exact ⟨op, op.mem_all, rfl⟩

end Store

end MiniLisp
