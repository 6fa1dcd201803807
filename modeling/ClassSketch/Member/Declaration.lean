import ClassSketch.Diagram.Basic
import ClassSketch.Member.Parameters
import ClassSketch.Member.Shape
import ClassSketch.Source.Token

/-!
# Member declarations

A member line is read in two steps. `Declaration.read?` reads the line on
its own: modifier tags anywhere in it, a visibility sign, keywords, and
then a call or a field form. `Entity.attach` says where the declaration
goes. A class takes all of them, and a call form without a type whose name
is the class's own is a constructor; an interface takes methods; an enum
takes nothing.
-/

namespace ClassSketch

open Text

namespace Member

/-- What is declared, apart from visibility and modifiers. -/
inductive Shape where
  | call (name : String) (parameters : List Parameter) (returns : Option TypeExpr)
  | field (name : String) (type : Option TypeExpr)

structure Declaration where
  visibility : Visibility
  modifiers : List Modifier
  shape : Shape

namespace Declaration

/-- The text without a brace that opens a block at its end. -/
def dropOpening (s : List Char) : List Char :=
  if s.getLast? = some '{' then trimEnd s.dropLast else s

def dropSemicolons (s : List Char) : List Char :=
  (s.reverse.dropWhile (· == ';')).reverse

/-- The text of a line without its tags and what may end it. -/
def bare (line : List Char) : List Char :=
  trim (dropSemicolons (dropOpening (trim ((tokens line).flatMap Token.blanked))))

def tags (line : List Char) : List Modifier :=
  (tokens line).filterMap Token.modifier?

/-- The visibility sign at the front, everyone's if there is none. -/
def takeSign (s : List Char) : Visibility × List Char :=
  match s with
  | [] => (.everyone, [])
  | c :: cs =>
    match Visibility.ofSign? c with
    | some v => (v, trim cs)
    | none => (.everyone, s)

/-- The keywords at the front, each before a space and followed by something. -/
def takeKeywords (s : List Char) : List Modifier × List Char :=
  match _h : cutAt ' ' s with
  | none => ([], s)
  | some (word, tail) =>
    match Modifier.ofKeyword? word with
    | none => ([], s)
    | some m =>
      if allBlank tail then ([], s)
      else
        let (ms, rest) := takeKeywords (trimStart tail)
        (m :: ms, rest)
termination_by s.length
decreasing_by
  exact Nat.lt_of_le_of_lt (length_trimStart_le tail) (length_lt_of_cutAt _h)

/-- The tag `{field}` rules out a call form. -/
def shape? (modifiers : List Modifier) (s : List Char) : Option Shape :=
  match if Modifier.field ∈ modifiers then none else call? s with
  | some c =>
    some (.call (String.ofList c.name) (Parameter.readAll c.params) (c.type.map TypeExpr.read))
  | none => (field? s).map fun f => .field (String.ofList f.name) (f.type.map TypeExpr.read)

def read? (line : List Char) : Option Declaration :=
  let (visibility, s) := takeSign (bare line)
  let (keywords, s) := takeKeywords s
  let modifiers := tags line ++ keywords
  (shape? modifiers s).map fun shape => { visibility, modifiers, shape }

def isStatic (d : Declaration) : Bool :=
  .static ∈ d.modifiers || .classifier ∈ d.modifiers

def isAbstract (d : Declaration) : Bool :=
  .abstract ∈ d.modifiers

def isFinal (d : Declaration) : Bool :=
  .final ∈ d.modifiers

def method (d : Declaration) (name : String) (parameters : List Parameter) (returns : TypeExpr) :
    Method where
  name := name
  returns := some returns
  parameters := parameters
  visibility := d.visibility
  isStatic := d.isStatic
  isAbstract := d.isAbstract

/-- The method that a declaration makes, if it makes one: a call form, or a field
form with the tag `{method}`. -/
def method? (d : Declaration) : Option Method :=
  match d.shape with
  | .call name parameters returns => some (d.method name parameters (returns.getD ⟨"void", []⟩))
  | .field name type =>
    if .method ∈ d.modifiers then some (d.method name [] (type.getD ⟨"void", []⟩)) else none

/-- The constructor that a declaration makes in a class of the given name. -/
def constructor? (d : Declaration) (owner : String) : Option Method :=
  match d.shape with
  | .call name parameters none =>
    if name = owner then
      some { name, returns := none, parameters, visibility := d.visibility }
    else none
  | _ => none

/-- The attribute of a field form. -/
def attribute? (d : Declaration) : Option Attribute :=
  match d.shape with
  | .call .. => none
  | .field name type =>
    some {
      name
      type := some (type.getD ⟨"Object", []⟩)
      visibility := d.visibility
      isStatic := d.isStatic
      isFinal := d.isFinal }

end Declaration

end Member

open Member

/-- Attaches a declaration to a class: whether it was attached, and the class after that. -/
def ClassDecl.attach (c : ClassDecl) (d : Declaration) : Bool × ClassDecl :=
  match d.constructor? c.name, d.method?, d.attribute? with
  | some k, _, _ => (true, { c with constructors := c.constructors ++ [k] })
  | none, some m, _ => (true, { c with methods := c.methods ++ [m] })
  | none, none, some a => (true, { c with attributes := c.attributes ++ [a] })
  | none, none, none => (false, c)

def InterfaceDecl.attach (i : InterfaceDecl) (d : Declaration) : Bool × InterfaceDecl :=
  match d.method? with
  | some m => (true, { i with methods := i.methods ++ [m] })
  | none => (false, i)

namespace Entity

/-- Attaches a declaration to an entity: whether the entity can hold it, and the entity after
that. -/
def attach (e : Entity) (d : Declaration) : Bool × Entity :=
  match e with
  | cls c => (c.attach d).map id cls
  | interface i => (i.attach d).map id interface
  | enum _ => (false, e)

/-- Offers a member line to an entity: whether it was taken, and the entity after that. -/
def offer (e : Entity) (line : List Char) : Bool × Entity :=
  match Declaration.read? line with
  | some d => e.attach d
  | none => (false, e)

/-! ### What an entity does not take -/

section Attach

variable {d : Declaration} {taken : Bool} {e e' : Entity}

theorem attach_cases (h : e.attach d = (taken, e')) :
    (∃ c c', e = cls c ∧ e' = cls c' ∧ c.attach d = (taken, c')) ∨
      (∃ i i', e = interface i ∧ e' = interface i' ∧ i.attach d = (taken, i')) ∨
      ∃ en, e = enum en ∧ e' = enum en ∧ taken = false := by
  cases e with
  | cls c =>
    obtain ⟨rfl, rfl⟩ := Prod.mk.inj h
    exact Or.inl ⟨c, _, rfl, rfl, rfl⟩
  | interface i =>
    obtain ⟨rfl, rfl⟩ := Prod.mk.inj h
    exact Or.inr (Or.inl ⟨i, _, rfl, rfl, rfl⟩)
  | enum en =>
    obtain ⟨rfl, rfl⟩ := Prod.mk.inj h
    exact Or.inr (Or.inr ⟨en, rfl, rfl, rfl⟩)

/-- An entity that cannot hold a declaration stays as it is. -/
theorem eq_of_attach_false (h : e.attach d = (false, e')) : e' = e := by
  rcases attach_cases h with ⟨c, c', rfl, rfl, hc⟩ | ⟨i, i', rfl, rfl, hi⟩ | ⟨en, rfl, rfl, -⟩
  · unfold ClassDecl.attach at hc
    split at hc <;> cases hc
    rfl
  · unfold InterfaceDecl.attach at hi
    split at hi <;> cases hi
    rfl
  · rfl

/-- An entity that does not take a line stays as it is. -/
theorem eq_of_offer_false {line : List Char} (h : e.offer line = (false, e')) : e' = e := by
  unfold offer at h
  split at h
  · exact eq_of_attach_false h
  · cases h
    rfl

/-- A line that is taken declares something that its entity can hold. -/
theorem exists_of_offer_true {line : List Char} (h : e.offer line = (true, e')) :
    ∃ d, Declaration.read? line = some d ∧ e.attach d = (true, e') := by
  unfold offer at h
  split at h
  · next d hread => exact ⟨d, hread, h⟩
  · cases h

end Attach

end Entity

end ClassSketch
