import Mathlib.Data.List.Basic
import ClassSketch.Proofs.Nesting.Listing

/-!
# Tidy emitters

The five emitters whose languages have blocks in braces are tidy. Each function
of a listing has one lemma : its text is nested, or its lines are neat, when the
declaration it writes is tidy. The proofs follow the way the text is put together;
a written-out text is scanned (`Nested.literal`).
-/

namespace ClassSketch.Target

open Text Layout

/-! ## Java -/

namespace Java

theorem tidy_typeNames : typeNames.Tidy where
  absent := .literal rfl
  plain := by
    repeat refine List.forall_mem_cons.2 ⟨.literal rfl, ?_⟩
    exact List.forall_mem_nil _
  containers := by
    repeat refine List.forall_mem_cons.2 ⟨.literal rfl, ?_⟩
    exact List.forall_mem_nil _
  applied := nested_angled (.literal rfl)

theorem nested_typeName {type : Option TypeExpr} (h : TypeExpr.Tidy type) :
    Nested (typeNames.name type) :=
  TypeNames.Tidy.name tidy_typeNames h

theorem nested_access (v : Visibility) : Nested (access v) := by
  cases v <;> exact .literal rfl

theorem nested_placeholder (p : Placeholder) : Nested (placeholder p) := by
  cases p <;> exact .literal rfl

theorem nested_parameters {ps : List Parameter} (h : ∀ p ∈ ps, p.Tidy) : Nested (parameters ps) :=
  nested_commas (List.forall_mem_map.2 fun p hp =>
    ((nested_typeName (h p hp).type).append (.literal rfl)).append (h p hp).name)

theorem neat_doc {summary : String} {ps : List Parameter} {returns : Option TypeExpr}
    (hsummary : Nested summary) (hps : ∀ p ∈ ps, p.Tidy) (hreturns : TypeExpr.Tidy returns) :
    Neat (doc summary ps returns) := by
  refine neat_starComment (List.forall_mem_append.2 ⟨List.forall_mem_append.2
    ⟨List.forall_mem_singleton.2 hsummary, List.forall_mem_map.2 fun p hp => ?_⟩, ?_⟩)
  · have hname := (hps p hp).name
    exact (((Nested.literal rfl).append hname).append (.literal rfl)).append hname
  · cases returns with
    | none => exact List.forall_mem_nil _
    | some t =>
      simp only
      split
      · exact List.forall_mem_nil _
      · exact List.forall_mem_singleton.2 (.append (.literal rfl) (nested_render (hreturns t rfl)))

theorem nested_field {a : Attribute} (h : a.Tidy) : Nested (field a) := by
  refine .append (nested_words (List.forall_iff_forall_mem.1 ?_)) (.literal rfl)
  exact ⟨nested_access _, nested_wordIf (.literal rfl), nested_wordIf (.literal rfl),
    nested_typeName h.type, h.name⟩

theorem neat_constructor {owner : String} (howner : Nested owner) (hasParent : Bool) {m : Method}
    (h : m.Tidy) : Neat (constructor owner hasParent m) := by
  have hsignature : Nested (access m.visibility ++ " " ++ owner ++ "(" ++
      parameters m.parameters ++ ")") :=
    nested_call (((nested_access _).append (.literal rfl)).append howner)
      (nested_parameters h.parameters)
  refine (neat_doc (.append (.literal rfl) howner) h.parameters TypeExpr.tidy_none).append
    (neat_braced hsignature.trimmed (.ofTexts (List.forall_mem_append.2 ⟨?_, ?_⟩)))
  · exact nested_optional (.literal rfl)
  · exact List.forall_mem_singleton.2 (.literal rfl)

theorem nested_declaration (inInterface : Bool) {m : Method} (h : m.Tidy) :
    Nested (declaration inInterface m) :=
  nested_words (List.forall_iff_forall_mem.1 ⟨nested_wordIf (nested_access _),
    nested_wordIf (.literal rfl), nested_wordIf (.literal rfl), nested_typeName h.returns,
    nested_call h.name (nested_parameters h.parameters)⟩)

theorem neat_signature (inInterface : Bool) {m : Method} (h : m.Tidy) :
    Neat (signature inInterface m) :=
  (neat_doc h.name h.parameters h.returns).append
    (.ofText ((nested_declaration inInterface h).append (.literal rfl)))

theorem nested_body (m : Method) : ∀ s ∈ body m, Nested s :=
  List.forall_mem_cons.2 ⟨.literal rfl, nested_optional (nested_return (nested_placeholder _))⟩

theorem neat_method {m : Method} (h : m.Tidy) : Neat (method m) :=
  .ite (neat_signature false h) ((neat_doc h.name h.parameters h.returns).append
    (neat_braced (nested_declaration false h) (.ofTexts (nested_body m))))

theorem neat_typeBlock {summary head : String} {blocks : List Lines} (hsummary : Nested summary)
    (hhead : Nested head) (hblocks : ∀ b ∈ blocks, Neat b) : Neat (typeBlock summary head blocks) :=
  ((neat_starComment (List.forall_mem_singleton.2 hsummary)).append
    (neat_braced hhead (.paragraphs hblocks))).append .blank

section Entities

variable {d : Diagram} (hd : d.Tidy)

include hd

theorem neat_classLines {c : ClassDecl} (h : c.Tidy) : Neat (classLines d c) := by
  refine neat_typeBlock (h.name.append (.literal rfl)) (.intercalate (forall_mem_of_all rfl) ?_) ?_
  · refine List.forall_mem_append.2 ⟨List.forall_mem_append.2 ⟨List.forall_mem_append.2
      ⟨List.forall_mem_append.2 ⟨?_, ?_⟩, ?_⟩, ?_⟩, ?_⟩
    · exact List.forall_mem_singleton.2 (.literal rfl)
    · exact nested_optional (.literal rfl)
    · exact List.forall_iff_forall_mem.1
        ⟨.literal rfl, h.name.append (nested_typeParams h.generics)⟩
    · cases hparent : d.parent? c with
      | none => exact List.forall_mem_nil _
      | some p => exact List.forall_iff_forall_mem.1 ⟨.literal rfl, hd.parent hparent⟩
    · split
      · exact List.forall_mem_nil _
      · exact List.forall_iff_forall_mem.1
          ⟨.literal rfl, nested_commas (List.forall_mem_map.2 hd.interfacesVia)⟩
  · refine List.forall_mem_append.2
      ⟨List.forall_mem_append.2 ⟨neat_of_mem_block (.ofTexts ?_), ?_⟩, ?_⟩
    · exact List.forall_mem_map.2 fun a ha => nested_field (h.attributes a ha)
    · exact List.forall_mem_map.2 fun m hm => neat_constructor h.name _ (tidy_constructors h m hm)
    · exact List.forall_mem_map.2 fun m hm => neat_method (h.methods m hm)

theorem neat_interfaceLines {i : InterfaceDecl} (h : i.Tidy) : Neat (interfaceLines d i) := by
  refine neat_typeBlock (h.name.append (.literal rfl)) ?_ ?_
  · refine .append (.append (.append (.literal rfl) h.name) (nested_typeParams h.generics)) ?_
    exact nested_clause (.literal rfl) (List.forall_mem_map.2 hd.interfacesVia)
  · exact List.forall_mem_map.2 fun m hm => neat_signature true (h.methods m hm)

end Entities

theorem neat_enumLines (d : Diagram) {e : EnumDecl} (h : e.Tidy) : Neat (enumLines d e) := by
  have hconstants : ∀ s ∈ numbered 0 (fun v n => v ++ "(" ++ n ++ ")") e.values, Nested s :=
    nested_numbered fun v hv n hn => nested_call (h.values v hv) hn
  refine neat_typeBlock (h.name.append (.literal rfl)) (.append (.literal rfl) h.name)
    (List.forall_iff_forall_mem.1 ⟨.ite ?_ ?_, ?_, ?_, ?_⟩)
  · exact .ofText (.literal rfl)
  · exact .ofTexts (nested_commaLines (.literal rfl) hconstants)
  · exact .ofText (.literal rfl)
  · exact neat_braced (h.name.append (.literal rfl)) (.ofText (.literal rfl))
  · exact neat_braced (.literal rfl) (.ofText (.literal rfl))

/-- Java has a tidy listing. -/
theorem tidy_listing : listing.Tidy where
  header := (Neat.ofText (.literal rfl)).append .blank
  footer := fun _ _ => .nil
  package := fun name body hname hbody => by
    have hstart : Neat (listing.packageStart name) :=
      (Neat.ofText (.append (.append (.literal rfl) hname) (.literal rfl))).append .blank
    exact (hstart.append hbody).append .nil
  classLines := fun _ _ hd hc => neat_classLines hd hc
  interfaceLines := fun _ _ hd hi => neat_interfaceLines hd hi
  enumLines := fun d _ he => neat_enumLines d he

end Java

/-! ## C# -/

namespace CSharp

theorem tidy_typeNames : typeNames.Tidy where
  absent := .literal rfl
  plain := by
    repeat refine List.forall_mem_cons.2 ⟨.literal rfl, ?_⟩
    exact List.forall_mem_nil _
  containers := by
    repeat refine List.forall_mem_cons.2 ⟨.literal rfl, ?_⟩
    exact List.forall_mem_nil _
  applied := nested_angled (.literal rfl)

theorem nested_typeName {type : Option TypeExpr} (h : TypeExpr.Tidy type) :
    Nested (typeNames.name type) :=
  TypeNames.Tidy.name tidy_typeNames h

theorem nested_access (v : Visibility) : Nested (access v) := by
  cases v <;> exact .literal rfl

theorem nested_placeholder (p : Placeholder) : Nested (placeholder p) := by
  cases p <;> exact .literal rfl

theorem nested_parameters {ps : List Parameter} (h : ∀ p ∈ ps, p.Tidy) : Nested (parameters ps) :=
  nested_commas (List.forall_mem_map.2 fun p hp =>
    ((nested_typeName (h p hp).type).append (.literal rfl)).append (h p hp).name)

theorem neat_summary {text : String} (h : Nested text) : Neat (summary text) :=
  ((Neat.ofText (.literal rfl)).append (.ofText (.append (.literal rfl) h))).append
    (.ofText (.literal rfl))

theorem neat_doc {text : String} {ps : List Parameter} {returns : Option TypeExpr}
    (htext : Nested text) (hps : ∀ p ∈ ps, p.Tidy) (hreturns : TypeExpr.Tidy returns) :
    Neat (doc text ps returns) := by
  refine ((neat_summary htext).append (.ofTexts (List.forall_mem_map.2 fun p hp => ?_))).append ?_
  · have hname := (hps p hp).name
    exact .append (.append (.append (.append (.literal rfl) hname) (.literal rfl)) hname)
      (.literal rfl)
  · cases returns with
    | none => exact .nil
    | some t =>
      have hrender := nested_render (hreturns t rfl)
      exact .ite .nil (.ofText (.append (.append (.literal rfl) hrender) (.literal rfl)))

theorem nested_property {a : Attribute} (h : a.Tidy) : Nested (property a) := by
  have hhead : Nested (" ".intercalate ([access a.visibility] ++
      (if a.isStatic then ["static"] else []) ++ [typeNames.name a.type, a.name])) := by
    refine .intercalate (forall_mem_of_all rfl) (List.forall_mem_append.2
      ⟨List.forall_mem_append.2 ⟨?_, nested_optional (.literal rfl)⟩, ?_⟩)
    · exact List.forall_mem_singleton.2 (nested_access _)
    · exact List.forall_iff_forall_mem.1 ⟨nested_typeName h.type, h.name⟩
  exact nested_append_braces (hhead.append (.literal rfl)) (.ite (.literal rfl) (.literal rfl))

theorem neat_constructor {owner : String} (howner : Nested owner) (hasParent : Bool) {m : Method}
    (h : m.Tidy) : Neat (constructor owner hasParent m) := by
  refine (neat_doc (.append (.literal rfl) howner) h.parameters TypeExpr.tidy_none).append
    (neat_bracedBelow (.append ?_ (nested_wordIf (.literal rfl))) (.ofText (.literal rfl)))
  exact nested_call (((nested_access _).append (.literal rfl)).append howner)
    (nested_parameters h.parameters)

theorem nested_signature (inInterface : Bool) {m : Method} (h : m.Tidy) :
    Nested (signature inInterface m) := by
  refine .intercalate (forall_mem_of_all rfl) (List.forall_mem_append.2
    ⟨List.forall_mem_append.2 ⟨List.forall_mem_append.2 ⟨?_, nested_optional (.literal rfl)⟩,
      nested_optional (.literal rfl)⟩, ?_⟩)
  · split
    · exact List.forall_mem_nil _
    · exact List.forall_mem_singleton.2 (nested_access _)
  · exact List.forall_iff_forall_mem.1 ⟨nested_typeName h.returns,
      nested_call h.name (nested_parameters h.parameters)⟩

theorem nested_body (m : Method) : ∀ s ∈ body m, Nested s :=
  List.forall_mem_cons.2 ⟨.literal rfl, nested_optional (nested_return (nested_placeholder _))⟩

theorem neat_method {m : Method} (h : m.Tidy) : Neat (method m) := by
  refine (neat_doc h.name h.parameters h.returns).append (.ite ?_ ?_)
  · exact .ofText ((nested_signature false h).append (.literal rfl))
  · exact neat_bracedBelow (nested_signature false h) (.ofTexts (nested_body m))

theorem neat_interfaceMethod {m : Method} (h : m.Tidy) : Neat (interfaceMethod m) :=
  (neat_doc h.name h.parameters h.returns).append
    (.ofText ((nested_signature true h).append (.literal rfl)))

theorem neat_typeBlock (inPackage : Bool) {text head : String} {blocks : List Lines}
    (htext : Nested text) (hhead : Nested head) (hblocks : ∀ b ∈ blocks, Neat b) :
    Neat (typeBlock inPackage text head blocks) := by
  have hlines := (neat_summary htext).append (neat_bracedBelow hhead (.paragraphs hblocks))
  exact (Neat.ite hlines.nest hlines).append .blank

section Entities

variable {d : Diagram} (hd : d.Tidy)

include hd

theorem nested_bases (c : ClassDecl) :
    ∀ n ∈ ((d.parent? c).map (·.name)).toList ++ (d.implemented c).map (·.name), Nested n := by
  refine List.forall_mem_append.2 ⟨fun n hn => ?_, List.forall_mem_map.2 hd.interfacesVia⟩
  obtain ⟨p, hp, rfl⟩ := Option.map_eq_some_iff.1 (Option.mem_toList.1 hn)
  exact hd.parent hp

theorem neat_classLines {c : ClassDecl} (h : c.Tidy) : Neat (classLines d c) := by
  refine neat_typeBlock _ (h.name.append (.literal rfl)) ?_ ?_
  · refine .append (.append (.append (.ite ?_ ?_) h.name) (nested_typeParams h.generics)) ?_
    · exact .literal rfl
    · exact .literal rfl
    · exact nested_clause (.literal rfl) (nested_bases hd c)
  · refine List.forall_mem_append.2
      ⟨List.forall_mem_append.2 ⟨neat_of_mem_block (.ofTexts ?_), ?_⟩, ?_⟩
    · exact List.forall_mem_map.2 fun a ha => nested_property (h.attributes a ha)
    · exact List.forall_mem_map.2 fun m hm => neat_constructor h.name _ (tidy_constructors h m hm)
    · exact List.forall_mem_map.2 fun m hm => neat_method (h.methods m hm)

theorem neat_interfaceLines {i : InterfaceDecl} (h : i.Tidy) : Neat (interfaceLines d i) := by
  refine neat_typeBlock _ (h.name.append (.literal rfl)) ?_ ?_
  · refine .append (.append (.append (.literal rfl) h.name) (nested_typeParams h.generics)) ?_
    exact nested_clause (.literal rfl) (List.forall_mem_map.2 hd.interfacesVia)
  · exact List.forall_mem_map.2 fun m hm => neat_interfaceMethod (h.methods m hm)

end Entities

theorem neat_enumLines (d : Diagram) {e : EnumDecl} (h : e.Tidy) : Neat (enumLines d e) := by
  have hvalues : ∀ s ∈ numbered 0 (fun v n => v ++ " = " ++ n) e.values, Nested s :=
    nested_numbered fun v hv n hn => ((h.values v hv).append (.literal rfl)).append hn
  exact neat_typeBlock _ (h.name.append (.literal rfl)) (.append (.literal rfl) h.name)
    (neat_of_mem_block (.ofTexts (nested_commaLines (.literal rfl) hvalues)))

/-- C# has a tidy listing. -/
theorem tidy_listing : listing.Tidy where
  header := .append (.ofTexts (List.forall_iff_forall_mem.1 ⟨.literal rfl, .literal rfl⟩)) .blank
  footer := fun _ _ => .nil
  package := fun name body hname hbody => by
    have hstart : (listing.packageStart name).Leads 0 1 :=
      (leads_ofText (Nested.append (.literal rfl) hname)).append (leads_ofText rfl)
    have hend : (listing.packageEnd name).Leads 1 0 :=
      Lines.Leads.append (leads_ofText rfl) Neat.blank
    exact .surround hstart hbody hend
  classLines := fun _ _ hd hc => neat_classLines hd hc
  interfaceLines := fun _ _ hd hi => neat_interfaceLines hd hi
  enumLines := fun d _ he => neat_enumLines d he

end CSharp

/-! ## Kotlin -/

namespace Kotlin

theorem tidy_typeNames : typeNames.Tidy where
  absent := .literal rfl
  plain := by
    repeat refine List.forall_mem_cons.2 ⟨.literal rfl, ?_⟩
    exact List.forall_mem_nil _
  containers := by
    repeat refine List.forall_mem_cons.2 ⟨.literal rfl, ?_⟩
    exact List.forall_mem_nil _
  applied := nested_angled (.literal rfl)

theorem nested_typeName {type : Option TypeExpr} (h : TypeExpr.Tidy type) :
    Nested (typeNames.name type) :=
  TypeNames.Tidy.name tidy_typeNames h

theorem nested_access (v : Visibility) : Nested (access v) := by
  cases v <;> exact .literal rfl

theorem nested_zero (name : String) : Nested (zero name) := by
  unfold zero
  split <;> exact .literal rfl

theorem nested_placeholder (type : Option TypeExpr) : Nested (placeholder type) := by
  unfold placeholder
  split
  · exact .literal rfl
  · exact nested_zero _
  · exact .literal rfl
  · exact .literal rfl
  · exact .literal rfl

theorem nested_propertyType {type : Option TypeExpr} (h : TypeExpr.Tidy type) :
    Nested (propertyType type) := by
  have hname := nested_typeName h
  simp only [propertyType]
  split
  · exact .ite hname (hname.append (.literal rfl))
  · exact .ite hname (hname.append (.literal rfl))
  · exact hname

theorem nested_parameters {ps : List Parameter} (h : ∀ p ∈ ps, p.Tidy) : Nested (parameters ps) :=
  nested_commas (List.forall_mem_map.2 fun p hp =>
    ((h p hp).name.append (.literal rfl)).append (nested_typeName (h p hp).type))

theorem nested_property {a : Attribute} (h : a.Tidy) : Nested (property a) := by
  refine .append (.append (nested_words (List.forall_iff_forall_mem.1 ?_)) (.literal rfl))
    (nested_placeholder _)
  exact ⟨nested_access _, .ite (.literal rfl) (.literal rfl),
    (h.name.append (.literal rfl)).append (nested_propertyType h.type)⟩

theorem neat_constructor (hasParent : Bool) {m : Method} (h : m.Tidy) :
    Neat (constructor hasParent m) := by
  refine neat_braced (.append (.append (.append (.append (.ite ?_ ?_) ?_) ?_) ?_) ?_)
    (.ofText (.literal rfl))
  · exact .literal rfl
  · exact (nested_access _).append (.literal rfl)
  · exact .literal rfl
  · exact nested_parameters h.parameters
  · exact .literal rfl
  · exact nested_wordIf (.literal rfl)

theorem nested_signature (inInterface : Bool) {m : Method} (h : m.Tidy) :
    Nested (signature inInterface m) := by
  refine .append (nested_words (List.forall_iff_forall_mem.1 ?_)) (.ite ?_ (.literal rfl))
  · exact ⟨nested_wordIf (nested_access _), nested_wordIf (.literal rfl),
      nested_call (.append (.literal rfl) h.name) (nested_parameters h.parameters)⟩
  · exact .append (.literal rfl) (nested_typeName h.returns)

theorem neat_method {m : Method} (h : m.Tidy) : Neat (method m) := by
  refine .ite (.ofText (nested_signature false h)) (neat_braced (nested_signature false h)
    (.ofTexts (List.forall_mem_cons.2 ⟨.literal rfl, nested_optional ?_⟩)))
  exact .append (.literal rfl) (nested_placeholder _)

theorem neat_typeBlock {summary head : String} {blocks : List Lines} (hsummary : Nested summary)
    (hhead : Nested head) (hblocks : ∀ b ∈ blocks, Neat b) : Neat (typeBlock summary head blocks) :=
  ((neat_starComment (List.forall_mem_singleton.2 hsummary)).append
    (neat_braced hhead (.paragraphs hblocks))).append .blank

theorem nested_inheritance (d : Diagram) (c : ClassDecl) : Nested (inheritance d c) :=
  .ite (.literal rfl) (.ite (.literal rfl) (.literal rfl))

/-- The companion has the static members in braces of its own. -/
theorem neat_of_mem_companion {c : ClassDecl} (h : c.Tidy) : ∀ b ∈ companion c, Neat b := by
  have hmembers : ∀ b ∈ (staticAttributes c).map (fun a => Lines.ofText (property a)) ++
      (c.methods.filter (·.isStatic)).map method, Neat b := by
    refine List.forall_mem_append.2 ⟨List.forall_mem_map.2 fun a ha => ?_,
      List.forall_mem_map.2 fun m hm => ?_⟩
    · exact .ofText (nested_property (h.attributes a (List.mem_filter.1 ha).1))
    · exact neat_method (h.methods m (List.mem_filter.1 hm).1)
  simp only [companion]
  split
  · exact List.forall_mem_nil _
  · exact List.forall_mem_singleton.2 (neat_braced (.literal rfl) (.paragraphs hmembers))

section Entities

variable {d : Diagram} (hd : d.Tidy)

include hd

theorem nested_supertypes (c : ClassDecl) : ∀ n ∈ supertypes d c, Nested n := by
  refine List.forall_mem_append.2 ⟨fun n hn => ?_, List.forall_mem_map.2 hd.interfacesVia⟩
  obtain ⟨p, hp, rfl⟩ := Option.map_eq_some_iff.1 (Option.mem_toList.1 hn)
  exact .ite ((hd.parent hp).append (.literal rfl)) (hd.parent hp)

theorem neat_classLines {c : ClassDecl} (h : c.Tidy) : Neat (classLines d c) := by
  refine neat_typeBlock (h.name.append (.literal rfl)) ?_ ?_
  · refine .append (.append (.append (.append (nested_inheritance d c) (.literal rfl)) h.name)
      (nested_typeParams h.generics)) ?_
    exact nested_clause (.literal rfl) (nested_supertypes hd c)
  · refine List.forall_mem_append.2 ⟨List.forall_mem_append.2 ⟨List.forall_mem_append.2
      ⟨neat_of_mem_block (.ofTexts ?_), ?_⟩, ?_⟩, neat_of_mem_companion h⟩
    · exact List.forall_mem_map.2 fun a ha =>
        nested_property (h.attributes a (List.mem_filter.1 ha).1)
    · exact List.forall_mem_map.2 fun m hm => neat_constructor _ (tidy_constructors h m hm)
    · exact List.forall_mem_map.2 fun m hm => neat_method (h.methods m (List.mem_filter.1 hm).1)

theorem neat_interfaceLines {i : InterfaceDecl} (h : i.Tidy) : Neat (interfaceLines d i) := by
  refine neat_typeBlock (h.name.append (.literal rfl)) ?_ ?_
  · refine .append (.append (.append (.literal rfl) h.name) (nested_typeParams h.generics)) ?_
    exact nested_clause (.literal rfl) (List.forall_mem_map.2 hd.interfacesVia)
  · exact List.forall_mem_map.2 fun m hm => .ofText (nested_signature true (h.methods m hm))

end Entities

theorem neat_enumLines (d : Diagram) {e : EnumDecl} (h : e.Tidy) : Neat (enumLines d e) := by
  have hconstants : ∀ s ∈ numbered 0 (fun v n => v ++ "(" ++ n ++ ")") e.values, Nested s :=
    nested_numbered fun v hv n hn => nested_call (h.values v hv) hn
  refine neat_typeBlock (h.name.append (.literal rfl)) ?_
    (neat_of_mem_block (.ofTexts (nested_commaLines (.literal rfl) hconstants)))
  exact .append (.append (.literal rfl) h.name) (.literal rfl)

/-- Kotlin has a tidy listing. -/
theorem tidy_listing : listing.Tidy where
  header := .nil
  footer := fun _ _ => .nil
  package := fun name body hname hbody => by
    have hstart : Neat (listing.packageStart name) :=
      .append (.ofText (.append (.literal rfl) hname)) .blank
    exact (hstart.append hbody).append .nil
  classLines := fun _ _ hd hc => neat_classLines hd hc
  interfaceLines := fun _ _ hd hi => neat_interfaceLines hd hi
  enumLines := fun d _ he => neat_enumLines d he

end Kotlin

/-! ## JavaScript -/

namespace JavaScript

theorem tidy_typeNames : typeNames.Tidy where
  absent := .literal rfl
  plain := by
    repeat refine List.forall_mem_cons.2 ⟨.literal rfl, ?_⟩
    exact List.forall_mem_nil _
  containers := by
    repeat refine List.forall_mem_cons.2 ⟨.literal rfl, ?_⟩
    exact List.forall_mem_nil _
  applied := nested_angled (.literal rfl)

theorem nested_typeName {type : Option TypeExpr} (h : TypeExpr.Tidy type) :
    Nested (typeNames.name type) :=
  TypeNames.Tidy.name tidy_typeNames h

theorem nested_accessTag? (v : Visibility) : ∀ s ∈ accessTag? v, Nested s := by
  rintro s hs
  cases v <;> cases hs <;> exact .literal rfl

theorem nested_placeholder (type : Option TypeExpr) : Nested (placeholder type) := by
  unfold placeholder
  split <;> exact .literal rfl

/-- A type in a comment has braces around it, which match. -/
theorem nested_inBraces {s : String} (h : Nested s) : Nested (inBraces s) := by
  have hbraces := nested_append_braces (s := "") (.literal rfl) h
  rwa [String.empty_append] at hbraces

theorem neat_comment {texts : List String} (h : ∀ s ∈ texts, Nested s) : Neat (comment texts) :=
  .ite .nil (neat_starComment h)

theorem neat_doc {tags : List String} {ps : List Parameter} {returns : Option TypeExpr}
    (htags : ∀ t ∈ tags, Nested t) (hps : ∀ p ∈ ps, p.Tidy) (hreturns : TypeExpr.Tidy returns) :
    Neat (doc tags ps returns) := by
  refine neat_comment (List.forall_mem_append.2 ⟨List.forall_mem_append.2
    ⟨htags, List.forall_mem_map.2 fun p hp => ?_⟩, ?_⟩)
  · have htype := nested_inBraces (nested_typeName (hps p hp).type)
    exact .append (.append (.append (.literal rfl) htype) (.literal rfl)) (hps p hp).name
  · split
    · exact List.forall_mem_nil _
    · exact List.forall_mem_singleton.2
        (.append (.literal rfl) (nested_inBraces (nested_typeName hreturns)))

theorem nested_staticField {a : Attribute} (h : a.Tidy) : Nested (staticField a) :=
  .append (.append (.append (.append (.literal rfl) h.name) (.literal rfl))
    (nested_placeholder _)) (.literal rfl)

theorem neat_assignment (params : List String) {a : Attribute} (h : a.Tidy) :
    Neat (assignment params a) := by
  refine .append (.ofText (.append (.append (.append (.append ?_ ?_) ?_) ?_) ?_))
    (.ofText (.append (.append (.append (.append ?_ h.name) ?_) (.ite h.name ?_)) ?_))
  · exact .literal rfl
  · exact .elim fun s hs => (nested_accessTag? _ s hs).append (.literal rfl)
  · exact .literal rfl
  · exact nested_inBraces (nested_typeName h.type)
  · exact .literal rfl
  · exact .literal rfl
  · exact .literal rfl
  · exact nested_placeholder _
  · exact .literal rfl

/-- A constructor with the call of the parent and the assignments. -/
theorem neat_constructor {ms : List Method} {attrs : List Attribute} (hms : ∀ m ∈ ms, m.Tidy)
    (hattrs : ∀ a ∈ attrs, a.Tidy) (hasParent : Bool) : Neat (constructor ms attrs hasParent) := by
  have hparams := tidy_mergedParameters hms
  refine (neat_doc (List.forall_mem_nil _) hparams TypeExpr.tidy_none).append
    (neat_braced ?_ (.append (.append (.ofTexts ?_) (.flatMap ?_)) (.ofText ?_)))
  · have hnames := nested_commas (List.forall_mem_map.2 fun p hp => (hparams p hp).name)
    exact .append (.append (.literal rfl) hnames) (.literal rfl)
  · exact nested_optional (.literal rfl)
  · exact fun a ha => neat_assignment _ (hattrs a ha)
  · exact .literal rfl

theorem neat_methodWith {tags : List String} (htags : ∀ t ∈ tags, Nested t) {m : Method}
    (h : m.Tidy) {body : List String} (hbody : ∀ s ∈ body, Nested s) :
    Neat (methodWith tags m body) := by
  refine .append
    (neat_doc (List.forall_mem_append.2 ⟨htags, fun s hs => ?_⟩) h.parameters h.returns)
    (neat_braced (nested_call (.append (nested_wordIf (.literal rfl)) h.name) (nested_commas ?_))
      (.ofTexts hbody))
  · exact nested_accessTag? _ s (Option.mem_toList.1 hs)
  · exact List.forall_mem_map.2 fun p hp => (h.parameters p hp).name

theorem nested_abstractBody : ∀ s ∈ abstractBody, Nested s :=
  List.forall_mem_singleton.2 (.literal rfl)

theorem neat_method {m : Method} (h : m.Tidy) : Neat (method m) := by
  refine .ite (neat_methodWith (List.forall_mem_singleton.2 (.literal rfl)) h nested_abstractBody)
    (neat_methodWith (List.forall_mem_nil _) h (List.forall_mem_cons.2 ⟨.literal rfl, ?_⟩))
  exact nested_optional (nested_return (nested_placeholder _))

theorem neat_typeBlock {texts : List String} {head : String} {blocks : List Lines}
    (htexts : ∀ s ∈ texts, Nested s) (hhead : Nested head) (hblocks : ∀ b ∈ blocks, Neat b) :
    Neat (typeBlock texts head blocks) :=
  ((neat_starComment htexts).append (neat_braced hhead (.paragraphs hblocks))).append .blank

theorem neat_of_mem_constructorBlock {c : ClassDecl} (h : c.Tidy) (hasParent : Bool) :
    ∀ b ∈ constructorBlock c hasParent, Neat b := by
  have hattrs : ∀ a ∈ instanceAttributes c, a.Tidy := fun a ha =>
    h.attributes a (List.mem_filter.1 ha).1
  simp only [constructorBlock]
  split
  · exact List.forall_mem_singleton.2 (neat_constructor h.constructors hattrs hasParent)
  · split
    · have hdefault := List.forall_mem_singleton.2 (tidy_defaultConstructor h)
      exact List.forall_mem_singleton.2 (neat_constructor hdefault hattrs hasParent)
    · exact List.forall_mem_nil _

/-- Type parameters in the comment of a type. -/
theorem nested_templates {generics : List String} (h : ∀ g ∈ generics, Nested g) :
    ∀ s ∈ generics.map ("@template " ++ ·), Nested s :=
  List.forall_mem_map.2 fun g hg => .append (.literal rfl) (h g hg)

/-- The constructor of an interface has a block inside of its block. -/
theorem neat_guard {name : String} (h : Nested name) (hasParent : Bool) :
    Neat (guard name hasParent) := by
  refine neat_braced (.literal rfl) (.append (.ofTexts (nested_optional (.literal rfl)))
    (neat_braced ?_ (.ofText (.literal rfl))))
  exact .append (.append (.literal rfl) h) (.literal rfl)

section Entities

variable {d : Diagram} (hd : d.Tidy)

include hd

theorem neat_classLines {c : ClassDecl} (h : c.Tidy) : Neat (classLines d c) := by
  refine neat_typeBlock ?_ (.append (.append (.literal rfl) h.name) (.elim fun p hp => ?_)) ?_
  · refine List.forall_mem_append.2 ⟨List.forall_mem_append.2 ⟨List.forall_mem_append.2
      ⟨?_, nested_optional (.literal rfl)⟩, nested_templates h.generics⟩, ?_⟩
    · exact List.forall_mem_singleton.2 (h.name.append (.literal rfl))
    · exact List.forall_mem_map.2 fun i hi =>
        .append (.literal rfl) (nested_inBraces (hd.interfacesVia i hi))
  · exact .append (.literal rfl) (hd.parent hp)
  · refine List.forall_mem_append.2 ⟨List.forall_mem_append.2 ⟨neat_of_mem_block (.ofTexts ?_),
      neat_of_mem_constructorBlock h _⟩, ?_⟩
    · exact List.forall_mem_map.2 fun a ha =>
        nested_staticField (h.attributes a (List.mem_filter.1 ha).1)
    · exact List.forall_mem_map.2 fun m hm => neat_method (h.methods m hm)

theorem neat_interfaceLines {i : InterfaceDecl} (h : i.Tidy) : Neat (interfaceLines d i) := by
  refine neat_typeBlock (List.forall_mem_append.2 ⟨List.forall_iff_forall_mem.1 ⟨?_, ?_⟩,
    nested_templates h.generics⟩) (.append (.append (.literal rfl) h.name) (.elim fun p hp => ?_))
    (List.forall_mem_cons.2 ⟨neat_guard h.name _, List.forall_mem_map.2 fun m hm => ?_⟩)
  · exact h.name.append (.literal rfl)
  · exact .literal rfl
  · exact .append (.literal rfl) (hd.interfacesVia p (List.mem_of_mem_head? hp))
  · exact neat_methodWith (List.forall_mem_nil _) (h.methods m hm) nested_abstractBody

/-- The exports are one line in braces. -/
theorem neat_footer : Neat (footer d) := by
  have hnames : ∀ n ∈ d.grouped.map Entity.name, Nested n :=
    List.forall_mem_map.2 fun e he => (hd.entities e (d.perm_grouped.mem_iff.1 he)).name
  refine .ite .nil (.ofText (.append (.append (.literal rfl) (nested_inBraces ?_)) (.literal rfl)))
  exact .append (.append (.literal rfl) (nested_commas hnames)) (.literal rfl)

end Entities

theorem neat_enumLines (d : Diagram) {e : EnumDecl} (h : e.Tidy) : Neat (enumLines d e) := by
  have hvalues : Neat (Lines.ofTexts (numbered 0 (fun v n => v ++ ": " ++ n ++ ",") e.values)) :=
    .ofTexts (nested_numbered fun v hv n hn =>
      (((h.values v hv).append (.literal rfl)).append hn).append (.literal rfl))
  have hhead : Nested ("const " ++ e.name ++ " = Object.freeze(") :=
    .append (.append (.literal rfl) h.name) (.literal rfl)
  refine .append (.append (neat_starComment (List.forall_iff_forall_mem.1 ⟨?_, ?_⟩)) (.ite ?_ ?_))
    .blank
  · exact h.name.append (.literal rfl)
  · exact .append (.literal rfl) (nested_inBraces (.literal rfl))
  · exact .ofText ((hhead.append (nested_inBraces (.literal rfl))).append (.literal rfl))
  · exact .surround (leads_openBrace hhead) hvalues.nest (leads_ofText rfl)

/-- JavaScript has a tidy listing. -/
theorem tidy_listing : listing.Tidy where
  header := .append (.ofText (.literal rfl)) .blank
  footer := fun _ hd => neat_footer hd
  package := fun _ _ _ hbody => (Neat.nil.append hbody).append .nil
  classLines := fun _ _ hd hc => neat_classLines hd hc
  interfaceLines := fun _ _ hd hi => neat_interfaceLines hd hi
  enumLines := fun d _ he => neat_enumLines d he

end JavaScript

/-! ## TypeScript -/

namespace TypeScript

theorem tidy_typeNames : typeNames.Tidy where
  absent := .literal rfl
  plain := by
    repeat refine List.forall_mem_cons.2 ⟨.literal rfl, ?_⟩
    exact List.forall_mem_nil _
  containers := by
    repeat refine List.forall_mem_cons.2 ⟨.literal rfl, ?_⟩
    exact List.forall_mem_nil _
  applied := nested_angled (.literal rfl)

theorem nested_typeName {type : Option TypeExpr} (h : TypeExpr.Tidy type) :
    Nested (typeNames.name type) :=
  TypeNames.Tidy.name tidy_typeNames h

theorem nested_access (v : Visibility) : Nested (access v) := by
  cases v <;> exact .literal rfl

theorem nested_placeholder (p : Placeholder) : Nested (placeholder p) := by
  cases p <;> exact .literal rfl

theorem nested_parameters {ps : List Parameter} (h : ∀ p ∈ ps, p.Tidy) : Nested (parameters ps) :=
  nested_commas (List.forall_mem_map.2 fun p hp =>
    ((h p hp).name.append (.literal rfl)).append (nested_typeName (h p hp).type))

theorem nested_field {a : Attribute} (h : a.Tidy) : Nested (field a) := by
  refine .intercalate (forall_mem_of_all rfl) (List.forall_mem_append.2 ⟨List.forall_mem_append.2
    ⟨List.forall_mem_append.2 ⟨?_, nested_optional (.literal rfl)⟩, nested_optional (.literal rfl)⟩,
      ?_⟩)
  · exact List.forall_mem_singleton.2 (nested_access _)
  · exact List.forall_mem_singleton.2 (((h.name.append (.literal rfl)).append
      (nested_typeName h.type)).append (.literal rfl))

theorem nested_constructorHead {m : Method} (h : m.Tidy) : Nested (constructorHead m) :=
  .append (.append ((nested_access _).append (.literal rfl)) (nested_parameters h.parameters))
    (.literal rfl)

theorem neat_of_mem_constructorBlock {ms : List Method} (h : ∀ m ∈ ms, m.Tidy) (hasParent : Bool) :
    ∀ b ∈ constructorBlock ms hasParent, Neat b := by
  have hbody : Neat (Lines.ofTexts ((if hasParent then ["super();"] else []) ++
      ["// TODO: Implement constructor"])) :=
    .ofTexts (List.forall_mem_append.2
      ⟨nested_optional (.literal rfl), List.forall_mem_singleton.2 (.literal rfl)⟩)
  simp only [constructorBlock]
  split
  · exact List.forall_mem_nil _
  · next m =>
    have hm := h m List.mem_cons_self
    exact List.forall_mem_singleton.2 (neat_braced (nested_constructorHead hm) hbody)
  · refine List.forall_mem_singleton.2 (.append (.ofTexts ?_) (neat_braced (.literal rfl) hbody))
    exact List.forall_mem_map.2 fun m hm => (nested_constructorHead (h m hm)).append (.literal rfl)

theorem nested_signature (inInterface : Bool) {m : Method} (h : m.Tidy) :
    Nested (signature inInterface m) := by
  refine .intercalate (forall_mem_of_all rfl) (List.forall_mem_append.2 ⟨List.forall_mem_append.2
    ⟨List.forall_mem_append.2 ⟨?_, nested_optional (.literal rfl)⟩, nested_optional (.literal rfl)⟩,
      ?_⟩)
  · split
    · exact List.forall_mem_nil _
    · exact List.forall_mem_singleton.2 (nested_access _)
  · have hparams := nested_parameters h.parameters
    exact List.forall_mem_singleton.2 ((((h.name.append (.literal rfl)).append hparams).append
      (.literal rfl)).append (nested_typeName h.returns))

theorem nested_body (m : Method) : ∀ s ∈ body m, Nested s :=
  List.forall_mem_cons.2 ⟨.literal rfl, nested_optional (nested_return (nested_placeholder _))⟩

theorem neat_method {m : Method} (h : m.Tidy) : Neat (method m) :=
  .ite (.ofText ((nested_signature false h).append (.literal rfl)))
    (neat_braced (nested_signature false h) (.ofTexts (nested_body m)))

theorem neat_typeBlock (inPackage : Bool) {summary head : String} {blocks : List Lines}
    (hsummary : Nested summary) (hhead : Nested head) (hblocks : ∀ b ∈ blocks, Neat b) :
    Neat (typeBlock inPackage summary head blocks) := by
  have hcomment : Nested ("/** " ++ summary ++ " */") :=
    .append (.append (.literal rfl) hsummary) (.literal rfl)
  have hlines := (Neat.ofText hcomment).append (neat_braced hhead (.paragraphs hblocks))
  exact (Neat.ite hlines.nest hlines).append .blank

section Entities

variable {d : Diagram} (hd : d.Tidy)

include hd

theorem neat_classLines {c : ClassDecl} (h : c.Tidy) : Neat (classLines d c) := by
  refine neat_typeBlock _ (h.name.append (.literal rfl)) ?_ ?_
  · refine .append (.append (.append (.append (.ite ?_ ?_) h.name) (nested_typeParams h.generics))
      (.elim fun p hp => ?_)) ?_
    · exact .literal rfl
    · exact .literal rfl
    · exact .append (.literal rfl) (hd.parent hp)
    · exact nested_clause (.literal rfl) (List.forall_mem_map.2 hd.interfacesVia)
  · refine List.forall_mem_append.2 ⟨List.forall_mem_append.2 ⟨neat_of_mem_block (.ofTexts ?_),
      neat_of_mem_constructorBlock (tidy_constructors h) _⟩, ?_⟩
    · exact List.forall_mem_map.2 fun a ha => nested_field (h.attributes a ha)
    · exact List.forall_mem_map.2 fun m hm => neat_method (h.methods m hm)

theorem neat_interfaceLines {i : InterfaceDecl} (h : i.Tidy) : Neat (interfaceLines d i) := by
  refine neat_typeBlock _ (h.name.append (.literal rfl)) ?_ (List.forall_mem_map.2 fun m hm => ?_)
  · refine .append (.append (.append (.literal rfl) h.name) (nested_typeParams h.generics)) ?_
    exact nested_clause (.literal rfl) (List.forall_mem_map.2 hd.interfacesVia)
  · exact .ofText ((nested_signature true (h.methods m hm)).append (.literal rfl))

end Entities

theorem neat_enumLines (d : Diagram) {e : EnumDecl} (h : e.Tidy) : Neat (enumLines d e) := by
  refine neat_typeBlock _ (h.name.append (.literal rfl)) (.append (.literal rfl) h.name)
    (neat_of_mem_block (.ofTexts (nested_numbered fun v hv n hn => ?_)))
  exact (((h.values v hv).append (.literal rfl)).append hn).append (.literal rfl)

/-- TypeScript has a tidy listing. -/
theorem tidy_listing : listing.Tidy where
  header := .nil
  footer := fun _ _ => .nil
  package := fun name body hname hbody => by
    have hstart : (listing.packageStart name).Leads 0 1 :=
      leads_openBrace (.append (.append (.literal rfl) hname) (.literal rfl))
    have hend : (listing.packageEnd name).Leads 1 0 :=
      Lines.Leads.append (leads_ofText rfl) Neat.blank
    exact .surround hstart hbody hend
  classLines := fun _ _ hd hc => neat_classLines hd hc
  interfaceLines := fun _ _ hd hi => neat_interfaceLines hd hi
  enumLines := fun d _ he => neat_enumLines d he

end TypeScript

end ClassSketch.Target
