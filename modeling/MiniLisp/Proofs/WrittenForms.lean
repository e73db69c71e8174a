import MiniLisp.Proofs.CompiledShapes

/-!
# The ways to write a form

A form that has a script is written in one of these ways, each from the scripts of its operands.
What holds of all scripts can be proved way by way.
-/

namespace MiniLisp.Script

/-- These are the scripts of the forms. -/
def EmitsAll (forms : List Form) (texts : List String) : Prop :=
  List.Forall₂ (fun form text ↦ emit form = .ok text) forms texts

inductive Written : Form → String → Prop
  | number (x : Double) : Written (.number x) x.render
  | string (s : String) : Written (.string s) (stringLiteral s)
  | boolean (b : Bool) : Written (.boolean b) (renderBoolean b)
  | nil : Written .nil "null"
  | operatorName {name : String} {op : Operator} (h : Operator.ofName? name = some op) :
      Written (.symbol name) op.asFunction
  | name {name ident : String} (h : identifier name = .ok ident) : Written (.symbol name) ident
  | mark (inner : Form) : Written (.quote inner) (data inner)
  | empty : Written (.list []) "[]"
  | quote {head : String} (hc : Construct.ofName? head = some .quote) (form : Form) :
      Written (.list [.symbol head, form]) (data form)
  | list {head : String} (hc : Construct.ofName? head = some .list) {operands : List Form}
      {texts : List String} (htexts : EmitsAll operands texts) :
      Written (.list (.symbol head :: operands)) (array texts)
  | lambda {head : String} (hc : Construct.ofName? head = some .lambda) (params : Form)
      {idents : List String} (hidents : ∀ ident ∈ idents, ∃ name, identifier name = .ok ident)
      {body : Form} {text : String} (hbody : emit body = .ok text) :
      Written (.list [.symbol head, params, body])
        ("((" ++ commas idents ++ ") => " ++ text ++ ")")
  | conditional {head : String} (hc : Construct.ofName? head = some .conditional)
      {test yes no : Form} {testText yesText noText : String} (htest : emit test = .ok testText)
      (hyes : emit yes = .ok yesText) (hno : emit no = .ok noText) :
      Written (.list [.symbol head, test, yes, no])
        ("(" ++ testText ++ " ? " ++ yesText ++ " : " ++ noText ++ ")")
  | define {head : String} (hc : Construct.ofName? head = some .define) {name ident : String}
      (hname : identifier name = .ok ident) {value : Form} {text : String}
      (hvalue : emit value = .ok text) :
      Written (.list [.symbol head, .symbol name, value]) ("(" ++ ident ++ " = " ++ text ++ ")")
  | log {head : String} (hc : Construct.ofName? head = some .log) {operands : List Form}
      {texts : List String} (htexts : EmitsAll operands texts) :
      Written (.list (.symbol head :: operands)) (call "console.log" texts)
  | nth {head : String} (hc : Construct.ofName? head = some .nth) {items index : Form}
      {itemsText indexText : String} (hitems : emit items = .ok itemsText)
      (hindex : emit index = .ok indexText) :
      Written (.list [.symbol head, items, index]) (itemsText ++ "[" ++ indexText ++ "]")
  | not {head : String} (hc : Construct.ofName? head = some .not) {arg : Form} {text : String}
      (harg : emit arg = .ok text) : Written (.list [.symbol head, arg]) ("(!" ++ text ++ ")")
  | operator {head : String} {op : Operator} (hc : Construct.ofName? head = some (.operator op))
      {operands : List Form} {texts : List String} (htexts : EmitsAll operands texts)
      {script : String} (hscript : operate op texts = .ok script) :
      Written (.list (.symbol head :: operands)) script
  | call {head fn : String} (hc : Construct.ofName? head = none) (hfn : identifier head = .ok fn)
      {operands : List Form} {texts : List String} (htexts : EmitsAll operands texts) :
      Written (.list (.symbol head :: operands)) (call fn texts)
  | headed {items : List Form} {fn : String} (hfn : emit (.list items) = .ok fn)
      {operands : List Form} {texts : List String} (htexts : EmitsAll operands texts) :
      Written (.list (.list items :: operands)) (call fn texts)

section Ways

variable {head script : String} {operands : List Form}

theorem emitsAll_of_mapM {texts : List String} (h : (emitAll operands).mapM id = .ok texts) :
    EmitsAll operands texts := by
  rw [emitAll_eq_map] at h
  exact List.forall₂_map_left_iff.mp (forall₂_of_mapM h)

theorem EmitsAll.forall_mem {texts : List String} (h : EmitsAll operands texts)
    {P : String → Prop} (hP : ∀ form ∈ operands, ∀ text, emit form = .ok text → P text) :
    ∀ text ∈ texts, P text := by
  intro text htext
  obtain ⟨form, hform, hemit⟩ := exists_mem_of_mem_right h htext
  exact hP form hform text hemit

theorem exists_idents_of_parameters {params : Form} {text : String}
    (h : parameters params = .ok text) :
    ∃ idents, text = commas idents ∧ ∀ ident ∈ idents, ∃ name, identifier name = .ok ident := by
  unfold parameters at h
  split at h
  · split at h
    · obtain ⟨idents, hidents, rfl⟩ := ok_of_map h
      refine ⟨idents, rfl, fun ident hident ↦ ?_⟩
      obtain ⟨name, -, hname⟩ := exists_mem_of_mem_right (forall₂_of_mapM hidents) hident
      exact ⟨name, hname⟩
    · cases h
  · cases h

theorem written_of_construct {c : Construct} (hc : Construct.ofName? head = some c)
    (h : construct operands (emitAll operands) c = .ok script) :
    Written (.list (.symbol head :: operands)) script := by
  -- A wrong number of operands has no script.
  cases c with
  | quote =>
      rcases operands with _ | ⟨form, _ | ⟨extra, rest⟩⟩
      case cons.nil =>
          cases h
          exact .quote hc form
      all_goals cases h
  | list =>
      obtain ⟨texts, htexts, rfl⟩ := ok_of_map h
      exact .list hc (emitsAll_of_mapM htexts)
  | lambda =>
      rcases operands with _ | ⟨params, _ | ⟨body, _ | ⟨extra, rest⟩⟩⟩
      case cons.cons.nil =>
          obtain ⟨names, hnames, h⟩ := ok_of_bind h
          obtain ⟨text, htext, h⟩ := ok_of_bind h
          obtain ⟨idents, rfl, hidents⟩ := exists_idents_of_parameters hnames
          cases h
          exact .lambda hc params hidents htext
      all_goals cases h
  | conditional =>
      rcases operands with _ | ⟨test, _ | ⟨yes, _ | ⟨no, _ | ⟨extra, rest⟩⟩⟩⟩
      case cons.cons.cons.nil =>
          obtain ⟨testText, htest, h⟩ := ok_of_bind h
          obtain ⟨yesText, hyes, h⟩ := ok_of_bind h
          obtain ⟨noText, hno, h⟩ := ok_of_bind h
          cases h
          exact .conditional hc htest hyes hno
      all_goals cases h
  | define =>
      rcases operands with _ | ⟨form, _ | ⟨value, _ | ⟨extra, rest⟩⟩⟩
      case cons.cons.nil =>
          obtain ⟨ident, hident, h⟩ := ok_of_bind h
          obtain ⟨text, htext, h⟩ := ok_of_bind h
          cases h
          obtain ⟨name, rfl⟩ := exists_of_target hident
          exact .define hc hident htext
      all_goals cases h
  | log =>
      obtain ⟨texts, htexts, rfl⟩ := ok_of_map h
      exact .log hc (emitsAll_of_mapM htexts)
  | nth =>
      rcases operands with _ | ⟨items, _ | ⟨index, _ | ⟨extra, rest⟩⟩⟩
      case cons.cons.nil =>
          obtain ⟨itemsText, hitems, h⟩ := ok_of_bind h
          obtain ⟨indexText, hindex, h⟩ := ok_of_bind h
          cases h
          exact .nth hc hitems hindex
      all_goals cases h
  | not =>
      rcases operands with _ | ⟨arg, _ | ⟨extra, rest⟩⟩
      case cons.nil =>
          obtain ⟨text, harg, h⟩ := ok_of_bind h
          cases h
          exact .not hc harg
      all_goals cases h
  | operator op =>
      obtain ⟨texts, htexts, h⟩ := ok_of_bind h
      exact .operator hc (emitsAll_of_mapM htexts) h

/-- A form that has a script is written in one of the ways. -/
theorem written_of_emit {form : Form} (h : emit form = .ok script) : Written form script := by
  cases form with
  | number x => cases h; exact .number x
  | string s => cases h; exact .string s
  | boolean b => cases h; exact .boolean b
  | nil => cases h; exact .nil
  | quote inner => cases h; exact .mark inner
  | symbol name =>
      rw [emit] at h
      cases hop : Operator.ofName? name with
      | some op =>
          rw [hop] at h
          cases h
          exact .operatorName hop
      | none =>
          rw [hop] at h
          exact .name h
  | list items =>
      cases items with
      | nil => cases h; exact .empty
      | cons head operands =>
          cases head with
          | symbol name =>
              rw [emit] at h
              cases hc : Construct.ofName? name with
              | some c =>
                  rw [hc] at h
                  exact written_of_construct hc h
              | none =>
                  rw [hc] at h
                  obtain ⟨fn, hfn, h⟩ := ok_of_bind h
                  obtain ⟨texts, htexts, h⟩ := ok_of_bind h
                  cases h
                  exact .call hc hfn (emitsAll_of_mapM htexts)
          | list items =>
              rw [emit] at h
              obtain ⟨fn, hfn, h⟩ := ok_of_bind h
              obtain ⟨texts, htexts, h⟩ := ok_of_bind h
              cases h
              exact .headed hfn (emitsAll_of_mapM htexts)
          | number | string | boolean | nil | quote => cases h

end Ways

end MiniLisp.Script
