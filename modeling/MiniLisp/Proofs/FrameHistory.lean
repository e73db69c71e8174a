import MiniLisp.Proofs.NativeOutcomes
import MiniLisp.Proofs.ViewedStores

/-!
# Frames and their history

Frames are made as roots, as children and for calls, and names are bound in them one by one or many
at a time, in any order, and some of this fails. All that was changed is a history of frames made and
of names bound. The history alone says what every frame binds and in which order it lists that, and
what a lookup finds: the last value of the name in the innermost frame in which it was ever bound.
-/

namespace MiniLisp

/-- A change to the frames. -/
inductive Change where
  | made (parent : Option FrameId)
  | bound (f : FrameId) (name : String) (value : Value)

/-- The parents of the frames, which are numbered as they were made. -/
def parentsIn (changes : List Change) : List (Option FrameId) :=
  changes.filterMap fun
    | .made parent => some parent
    | .bound _ _ _ => none

/-- All that was ever bound in the frame. -/
def definitionsIn (changes : List Change) (f : FrameId) : List (String × Value) :=
  changes.filterMap fun
    | .made _ => none
    | .bound g name value => if g = f then some (name, value) else none

/-- The frames from `f` outwards, innermost first. -/
inductive Outward (changes : List Change) : FrameId → List FrameId → Prop
  | root {f : FrameId} (hf : (parentsIn changes)[f]? = some none) : Outward changes f [f]
  | child {f parent : FrameId} {frames : List FrameId}
      (hf : (parentsIn changes)[f]? = some (some parent)) (h : Outward changes parent frames) :
      Outward changes f (f :: frames)

/-- The last definition of the name gives it this value. -/
def Latest (definitions : List (String × Value)) (name : String) (v : Value) : Prop :=
  ∃ before after, definitions = before ++ (name, v) :: after ∧ name ∉ after.map Prod.fst

/-- The bindings that the definitions leave: the names in the order in which they were first defined,
each with the value that it was given last. -/
structure Listed (definitions bindings : List (String × Value)) : Prop where
  order : bindings.map Prod.fst = (definitions.map Prod.fst).eraseDups
  value : ∀ name v, bindings.lookup name = some v ↔ Latest definitions name v

/-- The first of the frames in which the name was ever defined, and its last value there. -/
inductive Resolves (changes : List Change) (name : String) :
    List FrameId → Option (FrameId × Value) → Prop
  | bound {inner outer : List FrameId} {f : FrameId} {v : Value}
      (hinner : ∀ g ∈ inner, name ∉ (definitionsIn changes g).map Prod.fst)
      (hlatest : Latest (definitionsIn changes f) name v) :
      Resolves changes name (inner ++ f :: outer) (some (f, v))
  | unbound {frames : List FrameId}
      (hnever : ∀ g ∈ frames, name ∉ (definitionsIn changes g).map Prod.fst) :
      Resolves changes name frames none

/-- What the store answers about its frames is what their history says. -/
structure Store.Recalls (s : Store) (changes : List Change) : Prop where
  parents : s.frames.toList.map Frame.parent = parentsIn changes
  listed : ∀ f, Listed (definitionsIn changes f) (s.bindings f)
  outward : ∀ f < s.frames.size, Outward changes f (s.chain f)
  resolved : ∀ f name, ∃ found, Resolves changes name (s.chain f) found ∧
    s.find? f name = found.map Prod.fst ∧ s.contains f name = found.isSome ∧
    (Eval.lookup f name).run s = match found with
      | some (_, v) => .ok v s
      | none => .error (.unboundSymbol name) s

/-- What can be done to frames; `extend` makes the frame for a call of a closure. -/
inductive Deed where
  | root
  | child (f : FrameId)
  | define (f : FrameId) (target value : Value)
  | update (f : FrameId) (pairs : List (Value × Value))
  | extend (params : List String) (body : Form) (scope : FrameId) (args : List Value)

/-- The store that the deed leaves, whether or not it fails. -/
def Store.perform (s : Store) : Deed → Store
  | .root => (s.newFrame none).2
  | .child f => (s.newFrame (some f)).2
  | .define f target value =>
    match s.bindUnder f target value with
    | .ok t => t
    | .error _ => s
  | .update f pairs => (s.bindAllUnder f pairs).2
  | .extend params body scope args => (Evaluator.enter params body scope args).storeAfter s

namespace Deed

/-- The frame that the deed is done on. -/
def frame? : Deed → Option FrameId
  | .root => none
  | .child f | .define f _ _ | .update f _ | .extend _ _ f _ => some f

/-- The frame that was there before and that the deed may change. -/
def target? : Deed → Option FrameId
  | .define f _ _ | .update f _ => some f
  | _ => none

/-- The pairs before the first one whose target is no symbol. -/
def named : List (Value × Value) → List (String × Value)
  | (.symbol name, value) :: pairs => (name, value) :: named pairs
  | _ => []

def bind (f : FrameId) (pairs : List (String × Value)) : List Change :=
  pairs.map fun (name, value) ↦ .bound f name value

/-- What the deed changes when there are `size` frames. -/
def changes (size : Nat) : Deed → List Change
  | .root => [.made none]
  | .child f => [.made (some f)]
  | .define f target value => bind f (named [(target, value)])
  | .update f pairs => bind f (named pairs)
  | .extend params _ scope args =>
    if args.length = params.length then .made (some scope) :: bind size (params.zip args) else []

end Deed

def historyOf (deeds : List Deed) : List Change :=
  deeds.foldl (fun changes deed ↦ changes ++ deed.changes (parentsIn changes).length) []

/-- Deeds one after the other, each on a frame that is there. -/
inductive Performed : List Deed → Store → Prop
  | nil : Performed [] Store.empty
  | snoc {deeds : List Deed} {s : Store} (h : Performed deeds s) (deed : Deed)
      (hdeed : ∀ f, deed.frame? = some f → f < s.frames.size) :
      Performed (deeds ++ [deed]) (s.perform deed)

section Listing

variable {definitions bindings pairs : List (String × Value)}

theorem latest_iff_lookup {name : String} {v : Value} :
    Latest definitions name v ↔ definitions.reverse.lookup name = some v := by
  rw [List.lookup_eq_some_iff]
  constructor
  · -- backwards, the last definition of a name is the first one
    rintro ⟨before, after, rfl, hafter⟩
    refine ⟨after.reverse, before.reverse, by simp, fun p hp ↦ ?_⟩
    have hp : p.1 ∈ after.map Prod.fst := List.mem_map_of_mem (List.mem_reverse.mp hp)
    exact bne_iff_ne.mpr fun h ↦ hafter (h ▸ hp)
  · rintro ⟨after, before, heq, hafter⟩
    refine ⟨before.reverse, after.reverse, ?_, fun hmem ↦ ?_⟩
    · rw [← List.reverse_reverse definitions, heq]
      simp
    · obtain ⟨p, hp, rfl⟩ := List.mem_map.mp hmem
      exact bne_iff_ne.mp (hafter p (List.mem_reverse.mp hp)) rfl

theorem names_bindName (name : String) (v : Value) (bindings : List (String × Value)) :
    (bindName name v bindings).map Prod.fst =
      if name ∈ bindings.map Prod.fst then bindings.map Prod.fst
      else bindings.map Prod.fst ++ [name] := by
  induction bindings with
  | nil => rfl
  | cons b bindings ih =>
      obtain ⟨n, w⟩ := b
      by_cases hn : n = name
      · simp [bindName, hn]
      · rw [bindName, if_neg hn, List.map_cons, ih]
        have hne : name ≠ n := Ne.symm hn
        split <;> simp_all

theorem eraseDups_concat (names : List String) (name : String) :
    (names ++ [name]).eraseDups =
      if name ∈ names then names.eraseDups else names.eraseDups ++ [name] := by
  rw [List.eraseDups_append]
  by_cases h : name ∈ names
  · simp [List.removeAll, h]
  · simp [List.removeAll, h, List.eraseDups_cons]

namespace Listed

theorem nil : Listed [] [] :=
  ⟨rfl, fun name v ↦ by simp [latest_iff_lookup]⟩

theorem bindName (h : Listed definitions bindings) (name : String) (v : Value) :
    Listed (definitions ++ [(name, v)]) (MiniLisp.bindName name v bindings) where
  order := by
    rw [names_bindName, List.map_append, List.map_singleton, eraseDups_concat, h.order]
    simp only [List.mem_eraseDups]
  value n w := by
    rw [latest_iff_lookup, lookup_bindName, List.reverse_concat, List.lookup_cons]
    by_cases hn : n = name
    · simp [hn]
    · rw [if_neg hn, beq_false_of_ne hn, h.value, latest_iff_lookup]

theorem foldl (h : Listed definitions bindings) (pairs : List (String × Value)) :
    Listed (definitions ++ pairs)
      (pairs.foldl (fun bound pair ↦ MiniLisp.bindName pair.1 pair.2 bound) bindings) := by
  induction pairs generalizing definitions bindings with
  | nil => simpa using h
  | cons pair pairs ih =>
      rw [List.append_cons, List.foldl_cons]
      exact ih (h.bindName pair.1 pair.2)

theorem any_iff (h : Listed definitions bindings) (name : String) :
    bindings.any (·.1 == name) = true ↔ name ∈ definitions.map Prod.fst := by
  rw [← List.mem_eraseDups, ← h.order]
  simp

end Listed

end Listing

section Changes

variable (changes : List Change) (f g : FrameId) (pairs : List (String × Value))

theorem parentsIn_made (parent : Option FrameId) :
    parentsIn (changes ++ [.made parent]) = parentsIn changes ++ [parent] :=
  List.filterMap_append

theorem definitionsIn_made (parent : Option FrameId) :
    definitionsIn (changes ++ [.made parent]) f = definitionsIn changes f := by
  rw [definitionsIn, List.filterMap_append]
  exact List.append_nil _

theorem parentsIn_bind : parentsIn (changes ++ Deed.bind f pairs) = parentsIn changes := by
  simp [parentsIn, Deed.bind, List.filterMap_append, List.filterMap_map]

theorem definitionsIn_bind : definitionsIn (changes ++ Deed.bind f pairs) g =
    definitionsIn changes g ++ if f = g then pairs else [] := by
  rw [definitionsIn, List.filterMap_append, Deed.bind, List.filterMap_map]
  by_cases h : f = g <;> simp [definitionsIn, h]

end Changes

namespace Store

variable {s : Store} {f g : FrameId} {changes : List Change}

theorem parents_define (s : Store) (f : FrameId) (name : String) (v : Value) :
    (s.define f name v).frames.toList.map Frame.parent = s.frames.toList.map Frame.parent := by
  refine List.ext_getElem? fun g ↦ ?_
  rw [List.getElem?_map, List.getElem?_map, Array.getElem?_toList, Array.getElem?_toList,
    frames_define, Option.map_map]
  congr 1
  funext frame
  exact apply_ite Frame.parent (f = g) _ frame |>.trans (ite_self _)

theorem parents_defineAll (s : Store) (f : FrameId) (pairs : List (String × Value)) :
    (s.defineAll f pairs).frames.toList.map Frame.parent = s.frames.toList.map Frame.parent := by
  induction pairs generalizing s with
  | nil => rfl
  | cons pair pairs ih => rw [defineAll, List.foldl_cons, ← defineAll, ih, parents_define]

theorem frames_defineAll_of_ne (s : Store) (hne : f ≠ g) (pairs : List (String × Value)) :
    (s.defineAll f pairs).frames[g]? = s.frames[g]? := by
  induction pairs generalizing s with
  | nil => rfl
  | cons pair pairs ih =>
      rw [defineAll, List.foldl_cons, ← defineAll, ih, frames_define]
      simp [hne]

theorem parent?_defineAll (s : Store) (f g : FrameId) (pairs : List (String × Value)) :
    (s.defineAll f pairs).parent? g = s.parent? g := by
  induction pairs generalizing s with
  | nil => rfl
  | cons pair pairs ih => rw [defineAll, List.foldl_cons, ← defineAll, ih, parent?_define]

theorem bindings_newFrame (s : Store) (parent : Option FrameId) (f : FrameId) :
    (s.newFrame parent).2.bindings f = s.bindings f := by
  rw [bindings, bindings, frames_newFrame]
  by_cases hf : f = s.frames.size
  · simp [hf]
  · rw [if_neg hf]

/-- The store agrees with its history, frame by frame. -/
structure Records (s : Store) (changes : List Change) : Prop where
  parents : s.frames.toList.map Frame.parent = parentsIn changes
  older : ∀ f g : FrameId, s.parent? f = some g → g < f
  listed : ∀ f, Listed (definitionsIn changes f) (s.bindings f)

namespace Records

theorem empty : Store.empty.Records [] where
  parents := rfl
  older f g hg := by simp [parent?, Store.empty] at hg
  listed f := by simpa [bindings, Store.empty, definitionsIn] using Listed.nil

theorem newFrame (h : s.Records changes) {parent : Option FrameId}
    (hparent : ∀ g, parent = some g → g < s.frames.size) :
    (s.newFrame parent).2.Records (changes ++ [.made parent]) where
  parents := by
    rw [parentsIn_made, ← h.parents]
    simp [Store.newFrame]
  older _ _ := lt_of_parent?_newFrame h.older hparent
  listed f := by
    rw [definitionsIn_made, bindings_newFrame]
    exact h.listed f

theorem defineAll (h : s.Records changes) (hf : f < s.frames.size)
    (pairs : List (String × Value)) :
    (s.defineAll f pairs).Records (changes ++ Deed.bind f pairs) where
  parents := by rw [parents_defineAll, parentsIn_bind, h.parents]
  older g parent hparent := by
    rw [parent?_defineAll] at hparent
    exact h.older g parent hparent
  listed g := by
    rw [definitionsIn_bind]
    by_cases hg : f = g
    · subst hg
      rw [if_pos rfl, bindings_defineAll hf]
      exact (h.listed f).foldl pairs
    · rw [if_neg hg, List.append_nil, bindings, frames_defineAll_of_ne s hg]
      exact h.listed g

theorem size (h : s.Records changes) : (parentsIn changes).length = s.frames.size := by
  rw [← h.parents, List.length_map, Array.length_toList]

theorem parentsIn_getElem? (h : s.Records changes) {frame : Frame}
    (hframe : s.frames[f]? = some frame) : (parentsIn changes)[f]? = some frame.parent := by
  rw [← h.parents, List.getElem?_map, Array.getElem?_toList, hframe, Option.map_some]

/-- By induction on the frame, as its parent is older. -/
theorem outward (h : s.Records changes) (hf : f < s.frames.size) :
    Outward changes f (s.chain f) := by
  induction f using Nat.strong_induction_on with
  | _ f ih =>
    have hframe : s.frames[f]? = some s.frames[f] := Array.getElem?_eq_getElem hf
    have hrecorded := h.parentsIn_getElem? hframe
    generalize s.frames[f] = frame at hframe hrecorded
    obtain ⟨parent, bs⟩ := frame
    cases parent with
    | none =>
        rw [chain_of_root hframe]
        exact .root hrecorded
    | some g =>
        have hparent : s.parent? f = some g := parent?_of_frame hframe
        have hlt : g < f := h.older f g hparent
        rw [chain_of_parent? h.older hparent]
        exact .child hrecorded (ih g hlt (hlt.trans hf))

theorem resolved (h : s.Records changes) (f : FrameId) (name : String) :
    ∃ found, Resolves changes name (s.chain f) found ∧
      s.find? f name = found.map Prod.fst ∧ s.contains f name = found.isSome ∧
      (Eval.lookup f name).run s = match found with
        | some (_, v) => .ok v s
        | none => .error (.unboundSymbol name) s := by
  rw [contains, Eval.run_lookup, lookup?]
  cases hfind : s.find? f name with
  | none =>
      refine ⟨none, .unbound fun g hg ↦ ?_, rfl, rfl, rfl⟩
      rw [← (h.listed g).any_iff]
      exact List.find?_eq_none.mp hfind g hg
  | some g =>
      obtain ⟨hbound, inner, outer, hchain, hinner⟩ := List.find?_eq_some_iff_append.mp hfind
      rw [any_eq_isSome_lookup] at hbound
      obtain ⟨v, hv⟩ := Option.isSome_iff_exists.mp hbound
      refine ⟨some (g, v), ?_, rfl, rfl, by simp [hv]⟩
      rw [hchain]
      refine .bound (fun k hk ↦ ?_) (((h.listed g).value name v).mp hv)
      rw [← (h.listed k).any_iff, Bool.not_eq_true]
      simpa only [Bool.not_eq_true'] using hinner k hk

theorem recalls (h : s.Records changes) : s.Recalls changes where
  parents := h.parents
  listed := h.listed
  outward _ hf := h.outward hf
  resolved := h.resolved

end Records

theorem bindAllUnder_snd (s : Store) (f : FrameId) (pairs : List (Value × Value)) :
    (s.bindAllUnder f pairs).2 = s.defineAll f (Deed.named pairs) := by
  induction pairs generalizing s with
  | nil => rfl
  | cons pair pairs ih =>
      obtain ⟨target, value⟩ := pair
      cases target with
      | symbol name => exact ih (s.define f name value)
      | _ => rfl

theorem perform_define (s : Store) (f : FrameId) (target value : Value) :
    s.perform (.define f target value) = s.defineAll f (Deed.named [(target, value)]) := by
  cases target <;> rfl

theorem perform_extend (s : Store) (params : List String) (body : Form) (scope : FrameId)
    (args : List Value) : s.perform (.extend params body scope args) =
      if args.length = params.length
      then (s.newFrame (some scope)).2.defineAll s.frames.size (params.zip args) else s := by
  rw [perform, Evaluator.enter]
  by_cases hcount : args.length = params.length
  · rw [if_pos hcount, if_pos hcount]
    rfl
  · rw [if_neg hcount, if_neg hcount]
    rfl

theorem Records.perform (h : s.Records changes) {deed : Deed}
    (hdeed : ∀ f, deed.frame? = some f → f < s.frames.size) :
    (s.perform deed).Records (changes ++ deed.changes (parentsIn changes).length) := by
  rw [h.size]
  cases deed with
  | root => exact h.newFrame fun _ hg ↦ nomatch hg
  | child f => exact h.newFrame hdeed
  | define f target value =>
      rw [perform_define]
      exact h.defineAll (hdeed f rfl) (Deed.named [(target, value)])
  | update f pairs =>
      rw [Store.perform, bindAllUnder_snd]
      exact h.defineAll (hdeed f rfl) (Deed.named pairs)
  | extend params body scope args =>
      rw [perform_extend, Deed.changes]
      split
      · -- the parameters are bound in the frame that is made first
        rw [List.append_cons]
        have hlast : s.frames.size < (s.newFrame (some scope)).2.frames.size := by
          rw [size_newFrame]
          exact Nat.lt_succ_self s.frames.size
        exact (h.newFrame hdeed).defineAll hlast (params.zip args)
      · rwa [List.append_nil]

/-- A frame that is not bound in stays as it is, whatever else comes about. -/
theorem frames_perform (s : Store) {deed : Deed} (hg : g < s.frames.size)
    (hdeed : deed.target? ≠ some g) : (s.perform deed).frames[g]? = s.frames[g]? := by
  have hkept {t : Store} (ht : s.Grows t) : t.frames[g]? = s.frames[g]? := by
    rw [Array.getElem?_eq_getElem hg]
    exact ht.frames g _ (Array.getElem?_eq_getElem hg)
  cases deed with
  | root => exact hkept (s.newFrame_grows none)
  | child f => exact hkept (s.newFrame_grows (some f))
  | define f target value =>
      rw [perform_define]
      exact s.frames_defineAll_of_ne (fun h ↦ hdeed (congrArg some h)) _
  | update f pairs =>
      rw [Store.perform, bindAllUnder_snd]
      exact s.frames_defineAll_of_ne (fun h ↦ hdeed (congrArg some h)) _
  | extend params body scope args =>
      exact hkept (Evaluator.leaves_enter params body scope args s)

end Store

theorem Performed.records {deeds : List Deed} {s : Store} (h : Performed deeds s) :
    s.Records (historyOf deeds) := by
  induction h with
  | nil => exact .empty
  | snoc _ deed hdeed ih =>
      rw [historyOf, List.foldl_append]
      exact ih.perform hdeed

/-- A call of a closure with as many arguments as it has parameters makes a frame that binds every
parameter to the argument at its last occurrence. -/
theorem Evaluator.run_enter {s : Store} {params : List String} {scope : FrameId}
    {args : List Value} (body : Form) (hcount : args.length = params.length) :
    ∃ t, (enter params body scope args).run s = .ok s.frames.size t ∧
      t.frames.size = s.frames.size + 1 ∧ t.parent? s.frames.size = some scope ∧
      Listed (params.zip args) (t.bindings s.frames.size) := by
  refine ⟨(s.newFrame (some scope)).2.defineAll s.frames.size (params.zip args), ?_, ?_, ?_, ?_⟩
  · rw [enter, if_pos hcount]
    rfl
  · rw [Store.size_defineAll, Store.size_newFrame]
  · rw [Store.parent?_defineAll, Store.parent?, Store.frames_newFrame, if_pos rfl]
    rfl
  · rw [Store.bindings_defineAll_newFrame]
    exact Listed.nil.foldl (params.zip args)

/-- What the history says of the frames is what they bind, how they list it and what is found from
them. Nothing changes a frame but what is done on it, and a call makes one frame, for as many
arguments as there are parameters, or none. -/
theorem frames_of_history {deeds : List Deed} {s : Store} (h : Performed deeds s) :
    s.Recalls (historyOf deeds) ∧
    (∀ deed : Deed, ∀ g < s.frames.size, deed.target? ≠ some g →
      (s.perform deed).frames[g]? = s.frames[g]?) ∧
    ∀ params body scope args,
      (args.length = params.length →
        ∃ t, (Evaluator.enter params body scope args).run s = .ok s.frames.size t ∧
          t.frames.size = s.frames.size + 1 ∧ t.parent? s.frames.size = some scope ∧
          Listed (params.zip args) (t.bindings s.frames.size)) ∧
      (args.length ≠ params.length →
        (Evaluator.enter params body scope args).run s =
          .error (.wrongArity (closureText params body) (.exactly params.length) args.length) s) := by
  refine ⟨h.records.recalls, fun deed g hg hdeed ↦ s.frames_perform hg hdeed, ?_⟩
  refine fun params body scope args ↦ ⟨Evaluator.run_enter body, fun hcount ↦ ?_⟩
  rw [Evaluator.enter, if_neg hcount]
  rfl

theorem frames_of_history_shadowed :
    ∃ s, Performed [.root, .define 0 (.symbol "x") .nil, .child 0,
        .update 1 [(.symbol "x", .boolean true), (.nil, .nil), (.symbol "y", .nil)],
        .extend ["a", "a"] .nil 1 [.nil, .boolean false], .extend ["a"] .nil 1 []] s ∧
      s.Recalls [.made none, .bound 0 "x" .nil, .made (some 0), .bound 1 "x" (.boolean true),
        .made (some 1), .bound 2 "a" .nil, .bound 2 "a" (.boolean false)] ∧
      s.chain 2 = [2, 1, 0] ∧ s.find? 2 "x" = some 1 ∧ s.contains 2 "y" = false ∧
      (Evaluator.enter ["a"] .nil 1 []).run s =
        .error (.wrongArity (closureText ["a"] .nil) (.exactly 1) 0) s := by
  have h := Performed.nil
    |>.snoc .root (fun _ hf ↦ nomatch hf)
    |>.snoc (.define 0 (.symbol "x") .nil) (by rintro _ ⟨⟩; decide)
    |>.snoc (.child 0) (by rintro _ ⟨⟩; decide)
    |>.snoc (.update 1 [(.symbol "x", .boolean true), (.nil, .nil), (.symbol "y", .nil)])
      (by rintro _ ⟨⟩; decide)
    |>.snoc (.extend ["a", "a"] .nil 1 [.nil, .boolean false]) (by rintro _ ⟨⟩; decide)
    |>.snoc (.extend ["a"] .nil 1 []) (by rintro _ ⟨⟩; decide)
  obtain ⟨hrecalls, -, henter⟩ := frames_of_history h
  exact ⟨_, h, hrecalls, by decide, by decide, by decide, (henter ["a"] .nil 1 []).2 (by decide)⟩

end MiniLisp
