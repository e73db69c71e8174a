import MiniLisp.Proofs.SessionHeap

/-!
# Queries can be repeated

A form that defines nothing in its own frame may still call closures, which make frames, define names
in them and give out identities. All of that stays behind in the store. The frames that were there
before are unchanged, so a second run sees them as the first one did, with what it makes numbered
further up.
-/

namespace MiniLisp

namespace Form

variable {name : String}

theorem defines_list {items : List Form} :
    (Form.list items).Defines name ↔
      (∃ value, items = [.symbol Keyword.define.name, .symbol name, value]) ∨
        (¬ Shielded items ∧ ∃ item ∈ items, item.Defines name) := by
  constructor
  · intro h
    cases h with
    | here _ value => exact .inl ⟨value, rfl⟩
    | inside shown mem inner => exact .inr ⟨shown, _, mem, inner⟩
  · rintro (⟨value, rfl⟩ | ⟨shown, item, mem, inner⟩)
    · exact .here name value
    · exact .inside shown mem inner

end Form

namespace View

/-- The numbers below `n` stay as they are; `m - n` others come between them and the rest. -/
def skip (n m i : Nat) : Nat := if i < n then i else i + (m - n)

theorem skip_of_lt {n i : Nat} (h : i < n) (m : Nat) : skip n m i = i := if_pos h

theorem skip_add {n m : Nat} (h : n ≤ m) (k : Nat) : skip n m (n + k) = m + k := by
  rw [skip, if_neg (Nat.not_lt.mpr (Nat.le_add_right n k)), Nat.add_right_comm,
    Nat.add_sub_of_le h]

theorem strictMono_skip (n m : Nat) : StrictMono (skip n m) := by
  intro i j hij
  unfold skip
  split_ifs <;> omega

/-- What was given out up to one moment is seen as itself, and what comes after it as what comes
after a later one. -/
def after (n m : Extent) (h : 0 < n.ids) (lines lines' : List Line) : View where
  frame := skip n.frames m.frames
  identity := skip n.ids m.ids
  hidden _ := False
  live _ := True
  lines := lines
  lines' := lines'
  strictMono_frame := strictMono_skip n.frames m.frames
  injective_identity := (strictMono_skip n.ids m.ids).injective
  identity_zero := skip_of_lt h m.ids

end View

namespace Store

variable {s t : Store} {scope : FrameId}

theorem Reachable.nextId_pos (h : s.Reachable) : 0 < s.nextId := h.shows_same.2.2

/-- The view of a store as one that was left behind by a later run. -/
def Reachable.later (h : s.Reachable) (t : Store) : View :=
  .after s.extent t.extent h.nextId_pos s.output.toList t.output.toList

theorem Reachable.frame_later (h : s.Reachable) {f : FrameId} (hf : f < s.frames.size) :
    (h.later t).frame f = f :=
  View.skip_of_lt hf t.frames.size

theorem Reachable.sees_later (h : s.Reachable) {v w : Value} (hvw : View.same.Sees s.extent v w) :
    (h.later t).Sees s.extent v w :=
  hvw.adapt (le_refl _) (fun _ hid ↦ View.skip_of_lt hid _) (fun _ hf ↦ View.skip_of_lt hf _)
    fun _ _ _ _ _ hbody hlive ↦ ⟨hbody, hlive⟩

/-- The store is seen as a later one if no frame of it was changed meanwhile. -/
theorem Reachable.shows_later (h : s.Reachable) (ht : t.Rooted) (hle : s.extent ≤ t.extent)
    (hframes : s.Framed scope (fun _ ↦ False) t) : (h.later t).Shows s t where
  rooted := h.rooted
  rooted' := ht
  frames := by
    intro f a _ ha
    have hf : f < s.frames.size := (Array.getElem?_eq_some_iff.mp ha).1
    obtain ⟨b, hb, ⟨hparent, -, hunchanged⟩, -⟩ := hframes f a ha
    obtain ⟨a', ha', -, -, hbindings⟩ := h.shows_same.1.frames f a trivial ha
    obtain rfl : a' = a := Option.some.inj (ha'.symm.trans ha)
    refine ⟨b, by rwa [h.frame_later hf], ?_, fun _ _ ↦ trivial, fun name _ ↦ ?_⟩
    · rw [hparent]
      cases hg : a'.parent with
      | none => rfl
      | some g =>
          have hlt : g < f := h.rooted.parent f g ((parent?_of_frame ha).trans hg)
          rw [Option.map_some, h.frame_later (Nat.lt_trans hlt hf)]
    · have hsame := hbindings name not_false
      rw [hunchanged name not_false]
      cases hv : a'.bindings.lookup name with
      | none => exact .none
      | some v =>
          rw [hv] at hsame
          cases hsame with
          | some hsees => exact .some (h.sees_later hsees)
  live _ _ := trivial
  nextFrame := View.skip_add hle.1
  nextId := View.skip_add hle.2
  output := ⟨[], (List.append_nil _).symm, (List.append_nil _).symm⟩

/-- A form that defines nothing shows the same when it is run again. -/
theorem Reachable.observe_again (h : s.Reachable) (hscope : scope < s.frames.size) {form : Form}
    (hform : ∀ name, ¬ form.Defines name) (limit : Int) (room : Nat)
    (stack : Stack) :
    let x := Evaluator.evalWithin limit room stack form scope
    x.observe (x.storeAfter s) = x.observe s := by
  intro x
  have hyields : View.same.Yields s.extent x x :=
    View.same.evaluates_evalWithin limit room stack form scope s.extent (View.allows_same form)
      trivial hscope
  obtain ⟨hafter, hle⟩ := hyields.storeAfter h.shows_same.1 (le_refl _)
  have hframes : s.Framed scope (fun _ ↦ False) (x.storeAfter s) :=
    ((Evaluator.leaves_evalWithin limit room stack form scope s).mono hform).frames
  have hlater : (h.later (x.storeAfter s)).Yields s.extent x x := by
    have hagain := (h.later (x.storeAfter s)).evaluates_evalWithin limit room stack form scope
      s.extent (fun _ hhidden ↦ hhidden.elim) trivial hscope
    rwa [h.frame_later hscope] at hagain
  exact (View.observe_eq hlater (h.shows_later hafter.rooted hle hframes) (le_refl _)).symm

end Store

/-- However a form is evaluated that defines nothing in its frame, at the top level or below it and
on any stack, evaluating it twice in a row shows the same both times. -/
theorem query_repeatable {s : Store} (h : s.Reachable) {scope : FrameId}
    (hscope : scope < s.frames.size) {form : Form} (hform : ∀ name, ¬ form.Defines name) :
    (∀ limit, (evaluate limit form scope).observe ((evaluate limit form scope).storeAfter s) =
      (evaluate limit form scope).observe s) ∧
    ∀ stack depth, (evaluateBelow stack depth form scope).observe
        ((evaluateBelow stack depth form scope).storeAfter s) =
      (evaluateBelow stack depth form scope).observe s :=
  ⟨fun limit ↦ h.observe_again hscope hform limit _ _,
    fun stack depth ↦ h.observe_again hscope hform depth.limit _ stack⟩

/-- The form of `(list (log "a") ((lambda (x) (define y x)) (lambda () nil)))`. -/
def Form.loggedCall : Form :=
  .list [.symbol "list", .list [.symbol "log", .string "a"],
    .list [.list [.symbol "lambda", .list [.symbol "x"],
        .list [.symbol "define", .symbol "y", .symbol "x"]],
      .list [.symbol "lambda", .list [], .nil]]]

theorem query_repeatable_loggedCall :
    Store.initial.Reachable ∧ sessionRoot < Store.initial.frames.size ∧
      (∀ name, ¬ Form.loggedCall.Defines name) ∧
      ∀ limit, (evaluate limit .loggedCall sessionRoot).observe
          ((evaluate limit .loggedCall sessionRoot).storeAfter Store.initial) =
        (evaluate limit .loggedCall sessionRoot).observe Store.initial := by
  have hroot := Store.Reachable.initial.root_lt_size
  have hform : ∀ name, ¬ Form.loggedCall.Defines name := by
    have hsymbol : ∀ n name, ¬ (Form.symbol n).Defines name := nofun
    have hstring : ∀ text name, ¬ (Form.string text).Defines name := nofun
    simp [Form.loggedCall, Form.defines_list, Form.Shielded, Keyword.name, hsymbol, hstring]
  exact ⟨.initial, hroot, hform, (query_repeatable .initial hroot hform).1⟩

end MiniLisp
