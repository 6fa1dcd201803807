import ClassSketch.Proofs.Outline.Link
import ClassSketch.Proofs.WellFormed.Basic

/-!
# Lines with an arrow

A relationship is written as an arrow between two names, with blanks around it. A
quoted text may stand in the blanks on either side of the arrow, and a text may
follow the right name after a colon (`ArrowLine`). The line is read as the
relationship that its arrow means between the names, with the first quoted text or
the text after the colon as its label (`ArrowLine.read?_chars`).

Reading replaces a quoted text by a blank, so that an arrow between two names is
left, with blanks around it as before (`Gap.drawn`).

An arrow that is written from the other side means the same relationship. The
exception is the line without tips, which has no direction (`Arrow.meaning?_mirror`).
-/

namespace ClassSketch

open Text Outline

/-! ## Quoted texts -/

namespace Relationship

/-- A text without quotation marks goes to the front of the first part. -/
theorem splitOn_append {a : List Char} (ha : '"' ∉ a) (t : List Char) :
    (a ++ t).splitOn '"' = (t.splitOn '"').modifyHead (a ++ ·) := by
  induction a with
  | nil =>
    rw [List.nil_append]
    cases t.splitOn '"' <;> rfl
  | cons c a ih =>
    obtain ⟨hc, hrest⟩ := not_or.1 (mt List.mem_cons.2 ha)
    rw [List.cons_append, List.splitOn_cons_eq_if_modifyHead, if_neg (by simpa using Ne.symm hc),
      ih hrest, List.modifyHead_modifyHead]
    rfl

/-- A text without quotes stays as it is. -/
theorem unquoted_append {a : List Char} (ha : '"' ∉ a) (t : List Char) :
    unquoted ((a ++ t).splitOn '"') = a ++ unquoted (t.splitOn '"') ∧
      firstQuoted? ((a ++ t).splitOn '"') = firstQuoted? (t.splitOn '"') := by
  rw [splitOn_append ha]
  match t.splitOn '"', List.splitOn_ne_nil '"' t with
  | [p], _ => exact ⟨rfl, rfl⟩
  | [p, q], _ => exact ⟨List.append_assoc .., rfl⟩
  | p :: q :: r :: rest, _ => exact ⟨List.append_assoc .., rfl⟩

/-- A quoted text becomes a blank. -/
theorem unquoted_quoted {q : List Char} (hq : '"' ∉ q) (t : List Char) :
    unquoted (('"' :: (q ++ '"' :: t)).splitOn '"') = ' ' :: unquoted (t.splitOn '"') ∧
      firstQuoted? (('"' :: (q ++ '"' :: t)).splitOn '"') = some q := by
  have hsplit : ('"' :: (q ++ '"' :: t)).splitOn '"' = [] :: q :: t.splitOn '"' := by
    rw [List.splitOn_cons_eq_if_modifyHead, if_pos (by simp), splitOn_append hq,
      List.splitOn_cons_eq_if_modifyHead, if_pos (by simp), List.modifyHead_cons, List.append_nil]
  obtain ⟨p, ps, hps⟩ := List.exists_cons_of_ne_nil (List.splitOn_ne_nil '"' t)
  rw [hsplit, hps]
  exact ⟨rfl, rfl⟩

end Relationship

/-! ## The line -/

/-- Blanks beside an arrow, with a quoted text between them or not. -/
inductive Gap where
  | plain (bs : Blanks)
  | quoted (bs : Blanks) (text : List Char) (closed : '"' ∉ text) (cs : Blanks)

namespace Gap

def chars : Gap → List Char
  | plain bs => bs.chars
  | quoted bs text _ cs => bs.chars ++ '"' :: (text ++ '"' :: cs.chars)

def quote? : Gap → Option (List Char)
  | plain _ => none
  | quoted _ text _ _ => some text

/-- The blanks that are left when a quoted text is replaced by one. -/
def drawn : Gap → Blanks
  | plain bs => bs
  | quoted bs _ _ cs => {
      chars := bs.chars ++ ' ' :: cs.chars
      ne_nil := List.append_ne_nil_of_left_ne_nil bs.ne_nil _
      blank := List.forall_mem_append.2
        ⟨bs.blank, List.forall_mem_cons.2 ⟨by decide, cs.blank⟩⟩ }

end Gap

/-- A colon and what follows it, without quotes, with blanks before it or not. -/
structure Remark where
  indent : List Char
  blank : ∀ c ∈ indent, isBlank c = true
  text : List Char
  unquoted : '"' ∉ text

def Remark.chars (r : Remark) : List Char :=
  r.indent ++ ':' :: r.text

/-- An arrow between two names, with a stroke of `length + 1` characters. -/
structure ArrowLine where
  left : Dotted
  before : Gap
  arrow : Arrow
  length : Nat
  after : Gap
  right : Dotted
  remark : Option Remark

/-- A trimmed text, if it is not blank. -/
def visible? (s : List Char) : Option String :=
  if trim s = [] then none else some (String.ofList (trim s))

namespace ArrowLine

def chars (l : ArrowLine) : List Char :=
  l.left.chars ++ (l.before.chars ++ (l.arrow.chars l.length ++
    (l.after.chars ++ (l.right.chars ++ l.remark.elim [] Remark.chars))))

/-- The first quoted text if it is not blank, else the text after the colon. -/
def label? (l : ArrowLine) : Option String :=
  (l.before.quote? <|> l.after.quote?).bind visible? <|>
    l.remark.bind fun r => visible? r.text

/-- What the arrow means between the names, if it means anything. -/
def relationship? (l : ArrowLine) : Option Relationship :=
  match l.arrow.meaning? with
  | none => none
  | some (kind, .rightward) =>
    some { source := l.left.text, target := l.right.text, kind, label := l.label? }
  | some (kind, .leftward) =>
    some { source := l.right.text, target := l.left.text, kind, label := l.label? }

end ArrowLine

/-! ## Reading the line -/

/-- A label is what is left after trimming, if anything is. -/
theorem label?_eq_visible? (s : List Char) : Relationship.label? s = visible? s := by
  have hblank : allBlank s = true ↔ trim s = [] := by
    rw [allBlank, List.all_eq_true]
    constructor
    · intro h
      have hstart : trimStart s = [] := List.dropWhile_eq_nil_iff.2 h
      rw [trim, hstart]
      rfl
    · intro h c hc
      by_contra hnot
      have hmem := mem_trim hc (by simpa using hnot)
      rw [h] at hmem
      cases hmem
  simp only [visible?, Relationship.label?, hblank]

namespace Gap

/-- A gap is read without its quotation, which is the first one if there is any. -/
theorem unquoted_chars_append (g : Gap) (t : List Char) :
    Relationship.unquoted ((g.chars ++ t).splitOn '"') =
      g.drawn.chars ++ Relationship.unquoted (t.splitOn '"') ∧
    Relationship.firstQuoted? ((g.chars ++ t).splitOn '"') =
      (g.quote? <|> Relationship.firstQuoted? (t.splitOn '"')) := by
  have hblanks : ∀ bs : Blanks, '"' ∉ bs.chars := fun bs h => by cases bs.blank _ h
  cases g with
  | plain bs => exact Relationship.unquoted_append (hblanks bs) t
  | quoted bs text closed cs =>
    have hquoted := Relationship.unquoted_quoted closed (cs.chars ++ t)
    have hrest := (Relationship.unquoted_append (hblanks cs) t).1
    have hchars : (quoted bs text closed cs).chars ++ t =
        bs.chars ++ '"' :: (text ++ '"' :: (cs.chars ++ t)) := by simp [chars]
    obtain ⟨hdrawn, hfirst⟩ := Relationship.unquoted_append (hblanks bs)
      ('"' :: (text ++ '"' :: (cs.chars ++ t)))
    rw [hchars, hdrawn, hfirst, hquoted.1, hquoted.2, hrest]
    exact ⟨by simp [drawn], rfl⟩

end Gap

namespace ArrowLine

variable (l : ArrowLine)

/-- The line with blanks for its quoted texts, up to the colon. -/
def drawn : List Char :=
  l.arrow.spaced l.length l.left l.right l.before.drawn l.after.drawn

/-- A line is read without its quotations, and the first of them is kept. -/
theorem unquoted_chars :
    Relationship.unquoted (l.chars.splitOn '"') = l.drawn ++ l.remark.elim [] Remark.chars ∧
    Relationship.firstQuoted? (l.chars.splitOn '"') = (l.before.quote? <|> l.after.quote?) := by
  have hdotted : ∀ d : Dotted, '"' ∉ d.chars := fun d => d.not_mem (by decide)
  have harrow : '"' ∉ l.arrow.chars l.length := fun h =>
    absurd (l.arrow.mem_signs l.length _ h) (by decide)
  have hremark : '"' ∉ l.remark.elim [] Remark.chars := by
    cases l.remark with
    | none => exact List.not_mem_nil
    | some r =>
      intro h
      rcases List.mem_append.1 h with h | h
      · cases r.blank _ h
      · exact r.unquoted ((List.mem_cons.1 h).resolve_left (by decide))
  obtain ⟨hleft, hleft'⟩ := Relationship.unquoted_append (hdotted l.left) (l.before.chars ++
    (l.arrow.chars l.length ++ (l.after.chars ++ (l.right.chars ++ l.remark.elim [] Remark.chars))))
  obtain ⟨hbefore, hbefore'⟩ := l.before.unquoted_chars_append (l.arrow.chars l.length ++
    (l.after.chars ++ (l.right.chars ++ l.remark.elim [] Remark.chars)))
  obtain ⟨hmiddle, hmiddle'⟩ := Relationship.unquoted_append harrow
    (l.after.chars ++ (l.right.chars ++ l.remark.elim [] Remark.chars))
  obtain ⟨hafter, hafter'⟩ := l.after.unquoted_chars_append
    (l.right.chars ++ l.remark.elim [] Remark.chars)
  have hright : (l.right.chars ++ l.remark.elim [] Remark.chars).splitOn '"' =
      [l.right.chars ++ l.remark.elim [] Remark.chars] :=
    splitOn_of_not_mem (mt List.mem_append.1 (not_or.2 ⟨hdotted l.right, hremark⟩))
  constructor
  · rw [chars, hleft, hbefore, hmiddle, hafter, hright, drawn, Arrow.spaced]
    simp [Relationship.unquoted]
  · rw [chars, hleft', hbefore', hmiddle', hafter', hright]
    cases l.before <;> cases l.after <;> rfl

/-- What is drawn has only names, blanks and the signs of arrows in it. -/
theorem not_mem_drawn {c : Char} (hdotted : isDotted c = false) (hblank : isBlank c = false)
    (hsigns : c ∉ Arrow.signs) : c ∉ l.drawn :=
  l.arrow.not_mem_spaced _ _ _ _ _ hdotted hblank hsigns

/-- The first colon is the one of the remark. -/
theorem cutColon_drawn : ∃ e text,
    Relationship.cutColon (l.drawn ++ l.remark.elim [] Remark.chars) = (l.drawn ++ e, text) ∧
      (∀ c ∈ e, isBlank c = true) ∧ visible? text = l.remark.bind fun r => visible? r.text := by
  have hcolon : ':' ∉ l.drawn := l.not_mem_drawn (by decide) (by decide) (by decide)
  cases l.remark with
  | none =>
    refine ⟨[], [], ?_, List.forall_mem_nil _, rfl⟩
    rw [Option.elim_none, List.append_nil, Relationship.cutColon, cutAt_eq_none_iff.2 hcolon]
    rfl
  | some r =>
    have hindent : ':' ∉ r.indent := fun h => by cases r.blank _ h
    refine ⟨r.indent, r.text, ?_, r.blank, rfl⟩
    rw [Option.elim_some, Remark.chars, ← List.append_assoc, Relationship.cutColon,
      cutAt_append (mt List.mem_append.1 (not_or.2 ⟨hcolon, hindent⟩))]
    rfl

/-- The names and the arrow are found in the line up to the colon, whatever blanks follow. -/
theorem split?_drawn {e : List Char} (he : ∀ c ∈ e, isBlank c = true) :
    Arrow.split? (trim (Arrow.dropHints (l.drawn ++ e))) =
      some (l.left.chars, l.arrow, l.right.chars) := by
  have htrimmed : Trimmed l.drawn := l.arrow.trimmed_spaced ..
  have htrim : trim (l.drawn ++ e) = l.drawn := by
    rw [trim, htrimmed.trimStart_append, trimEnd_append_blanks _ he]
    have h := htrimmed.trim_eq
    rwa [trim, trimStart_eq_self htrimmed.startsBlank_eq] at h
  rw [drawn, l.arrow.dropHints_spaced _ _ _ _ _ he, ← drawn, htrim, drawn, l.arrow.split?_spaced]

/-- The arrow of a line gives the relationship that the line means. -/
theorem ofArrow?_eq : Relationship.ofArrow? l.left.chars l.arrow l.right.chars l.label? =
    l.relationship? := by
  rw [Relationship.ofArrow?, relationship?]
  cases l.arrow.meaning? with
  | none => rfl
  | some meaning =>
    obtain ⟨kind, direction⟩ := meaning
    cases direction <;> rfl

/-- A line with an arrow is read as the relationship that it means. -/
theorem read?_chars (hhidden : ¬Relationship.hiddenMark <:+: l.chars) :
    Relationship.read? l.chars = l.relationship? := by
  obtain ⟨hunquoted, hfirst⟩ := l.unquoted_chars
  obtain ⟨e, text, hcut, he, htext⟩ := l.cutColon_drawn
  have hlabel : ((l.before.quote? <|> l.after.quote?).bind Relationship.label? <|>
      Relationship.label? text) = l.label? := by
    rw [funext label?_eq_visible?, htext, label?]
  rw [Relationship.read?, if_neg (mt occursIn_iff.1 hhidden)]
  simp only [hunquoted, hfirst, hcut, l.split?_drawn he, Option.bind_some, hlabel]
  exact l.ofArrow?_eq

end ArrowLine

/-! ## Mirror images -/

namespace Arrow

/-- The arrow as it is written from the other side. -/
def mirror (a : Arrow) : Arrow :=
  { head := a.tail, stroke := a.stroke, tail := a.head }

/-- The line without tips has no direction. -/
def undirected : Arrow :=
  { head := .plain, stroke := .solid, tail := .plain }

end Arrow

def Direction.reverse : Direction → Direction
  | rightward => leftward
  | leftward => rightward

/-- From the other side an arrow has the same kind and the other direction. -/
theorem Arrow.meaning?_mirror {a : Arrow} (h : a ≠ undirected) :
    a.mirror.meaning? = a.meaning?.map fun m => (m.1, m.2.reverse) := by
  obtain ⟨head, stroke, tail⟩ := a
  revert h
  cases head <;> cases stroke <;> cases tail <;> decide

/-- Source, target and kind of a relationship. -/
def Relationship.ends (r : Relationship) : String × String × RelationKind :=
  (r.source, r.target, r.kind)

namespace ArrowLine

/-- The names of `l` in the other order, with the arrow written from the other side. -/
structure Mirrors (m l : ArrowLine) : Prop where
  left : m.left = l.right
  right : m.right = l.left
  arrow : m.arrow = l.arrow.mirror

/-- A line and its mirror image join the same ends, unless the arrow has no direction. -/
theorem Mirrors.ends_relationship? {m l : ArrowLine} (h : Mirrors m l)
    (hdirected : l.arrow ≠ Arrow.undirected) :
    m.relationship?.map Relationship.ends = l.relationship?.map Relationship.ends := by
  have hmeaning := Arrow.meaning?_mirror hdirected
  rw [relationship?, relationship?, h.arrow, hmeaning, h.left, h.right]
  cases l.arrow.meaning? with
  | none => rfl
  | some meaning =>
    obtain ⟨kind, direction⟩ := meaning
    cases direction <;> rfl

/-- A line with an arrow between two names is read exactly if its arrow is one of the table, and
then as the table says. Its mirror image has the same source, target and kind, unless the
arrow has no tips and so no direction. -/
theorem read?_arrowLine (l : ArrowLine) (hl : ¬Relationship.hiddenMark <:+: l.chars) :
    Relationship.read? l.chars = l.relationship? ∧
      ∀ m : ArrowLine, ¬Relationship.hiddenMark <:+: m.chars → Mirrors m l →
        l.arrow ≠ Arrow.undirected →
        (Relationship.read? m.chars).map Relationship.ends =
          (Relationship.read? l.chars).map Relationship.ends := by
  refine ⟨l.read?_chars hl, fun m hm hmirror hdirected => ?_⟩
  rw [m.read?_chars hm, l.read?_chars hl, hmirror.ends_relationship? hdirected]

/-- A line whose names look like parts of its arrow, with two quoted texts and a remark. -/
def ownedLine : ArrowLine where
  left := { first := ⟨['o'], by decide⟩, more := [⟨['d'], by decide⟩] }
  before := .quoted .space ['1'] (by decide) .space
  arrow := { head := .angle, stroke := .solid, tail := .circle }
  length := 1
  after := .quoted .space ['n', ':'] (by decide) .space
  right := { first := ⟨['o', 'o'], by decide⟩ }
  remark := some {
    indent := [' ']
    blank := Blanks.space.blank
    text := "in".toList
    unquoted := by decide }

/-- The same link from the other side. -/
def ownerLine : ArrowLine where
  left := ownedLine.right
  before := .plain .space
  arrow := { head := .circle, stroke := .solid, tail := .angle }
  length := 0
  after := .plain .space
  right := ownedLine.left
  remark := none

theorem read?_arrowLine_owned :
    ownedLine.chars = "o.d \"1\" <--o \"n:\" oo :in".toList ∧
    ownerLine.chars = "oo o-> o.d".toList ∧
    ¬Relationship.hiddenMark <:+: ownedLine.chars ∧ ¬Relationship.hiddenMark <:+: ownerLine.chars ∧
    Mirrors ownerLine ownedLine ∧ ownedLine.arrow ≠ Arrow.undirected ∧
    Relationship.read? ownedLine.chars =
      some { source := "oo", target := "o.d", kind := .aggregation, label := some "1" } ∧
    (Relationship.read? ownerLine.chars).map Relationship.ends =
      (Relationship.read? ownedLine.chars).map Relationship.ends := by
  have howned : ¬Relationship.hiddenMark <:+: ownedLine.chars := mt occursIn_iff.2 (by decide)
  have howner : ¬Relationship.hiddenMark <:+: ownerLine.chars := mt occursIn_iff.2 (by decide)
  have hmirror : Mirrors ownerLine ownedLine := ⟨rfl, rfl, rfl⟩
  have hdirected : ownedLine.arrow ≠ Arrow.undirected := by decide
  obtain ⟨hread, hends⟩ := read?_arrowLine ownedLine howned
  exact ⟨by decide, by decide, howned, howner, hmirror, hdirected, hread.trans (by decide),
    hends ownerLine howner hmirror hdirected⟩

end ArrowLine

end ClassSketch
