import ClassSketch.Proofs.Blocks.Listing
import ClassSketch.Proofs.WellFormed.Reading

/-!
# Matching blocks from any text

A fragment has no line feed, and an entity is made of characters of its header and
of its body lines. So no entity that is read off a text has a line feed in it
(`unbroken_ofText`). The diagram is well formed as well, and the blocks of its Ruby
code match.
-/

namespace ClassSketch

open Text Layout Member

/-! ## Members -/

theorem Member.Declaration.oneLine_of_constructor? {d : Declaration} (h : d.shape.OneLine)
    {owner : String} {m : Method} (hm : d.constructor? owner = some m) : m.OneLine := by
  unfold constructor? at hm
  split at hm
  · next name parameters hshape =>
    rw [hshape] at h
    obtain ⟨hname, hparameters, -⟩ := h
    obtain ⟨-, hsome⟩ := Option.ite_none_right_eq_some.1 hm
    cases hsome
    exact ⟨hname, nofun, hparameters⟩
  · cases hm

/-- A member that was read from one line has no line feed in any part. -/
theorem ClassDecl.Unbroken.attach {c c' : ClassDecl} (hc : c.Unbroken) {d : Declaration}
    (hd : d.shape.OneLine) {taken : Bool} (h : c.attach d = (taken, c')) : c'.Unbroken := by
  unfold ClassDecl.attach at h
  split at h
  · next hconstructor =>
    cases h
    exact { hc with
      constructors := List.forall_mem_append.2 ⟨hc.constructors, List.forall_mem_singleton.2
        (Declaration.oneLine_of_constructor? hd hconstructor)⟩ }
  · next hmethod =>
    cases h
    exact { hc with
      methods := List.forall_mem_append.2 ⟨hc.methods, List.forall_mem_singleton.2
        (Declaration.oneLine_of_method? hd hmethod)⟩ }
  · next hattribute =>
    cases h
    exact { hc with
      attributes := List.forall_mem_append.2 ⟨hc.attributes, List.forall_mem_singleton.2
        (Declaration.oneLine_of_attribute? hd hattribute)⟩ }
  · cases h
    exact hc

/-- So an entity stays without line feeds when a member is attached. -/
theorem Entity.Unbroken.attach {e e' : Entity} (he : e.Unbroken) {d : Declaration}
    (hd : d.shape.OneLine) {taken : Bool} (h : e.attach d = (taken, e')) : e'.Unbroken := by
  rcases attach_cases h with ⟨c, c', rfl, rfl, hc⟩ | ⟨i, i', rfl, rfl, hi⟩ | ⟨en, rfl, rfl, -⟩
  · exact ClassDecl.Unbroken.attach he hd hc
  · obtain ⟨hgenerics, hmethods⟩ := he
    unfold InterfaceDecl.attach at hi
    split at hi
    · next hmethod =>
      cases hi
      exact ⟨hgenerics, List.forall_mem_append.2 ⟨hmethods, List.forall_mem_singleton.2
        (Declaration.oneLine_of_method? hd hmethod)⟩⟩
    · cases hi
      exact ⟨hgenerics, hmethods⟩
  · exact he

namespace Source

/-! ## Headers and bodies -/

theorem EntityHeader.takeGenerics_subset (s : List Char) : (takeGenerics s).1 ⊆ s := by
  have htrim := trimStart_subset s
  unfold takeGenerics
  split
  · next t ht =>
    cases hcut : cutAt '>' t with
    | none => exact List.nil_subset s
    | some found =>
      have hleft := (subset_of_cutAt hcut).1
      exact List.Subset.trans hleft (List.Subset.trans (List.subset_cons_self '<' t) (ht ▸ htrim))
  · exact List.nil_subset s

/-- An entity takes its type parameters from its header. -/
theorem EntityHeader.unbroken_entity {line : List Char} {h : EntityHeader}
    (hread : read? line = some h) (hline : '\n' ∉ line) (package : Option String) :
    (h.entity package).Unbroken := by
  have hgenerics : ∀ g ∈ h.generics.map String.ofList, '\n' ∉ g.toList := by
    obtain ⟨kind, isAbstract, isExplicit, s, found, hs, hfound, rfl⟩ := exists_build_of_read? hread
    obtain ⟨rfl, -, -, -⟩ := eq_of_takeSome hfound
    refine List.forall_mem_map.2 fun g hg hfeed => hline (hs ?_)
    rw [String.toList_ofList] at hfeed
    have htaken := subset_of_mem_commaParts hg hfeed
    exact List.mem_append_right _ (takeGenerics_subset found.2 htaken)
  unfold EntityHeader.entity
  cases h.kind with
  | cls => exact ⟨hgenerics, List.forall_mem_nil _, List.forall_mem_nil _, List.forall_mem_nil _⟩
  | interface => exact ⟨hgenerics, List.forall_mem_nil _⟩
  | enum => exact trivial

theorem Reader.unbroken_bodyLine {e e' : Entity} (he : e.Unbroken) {text : List Char}
    (htext : '\n' ∉ text) (h : bodyLine e text = (none, e')) : e'.Unbroken := by
  rcases bodyLine_none h with hoffer | ⟨en, vs, -, -, rfl⟩
  · obtain ⟨d, hd, hattach⟩ := Entity.exists_of_offer_true hoffer
    exact he.attach (Declaration.oneLine_of_read? htext hd) hattach
  · exact trivial

end Source

open Source

/-- No entity that is read has a line feed in its parts. -/
theorem unbroken_ofText (text : String) :
    ∀ e ∈ (Reading.ofText text).diagram.entities, e.Unbroken := by
  refine Reader.forall_entities_after (fun f hf r h package hread => ?_) ?_
  · exact EntityHeader.unbroken_entity (Option.filter_eq_some_iff.1 hread).1
      (not_mem_of_mem_fragments hf) package
  · intro f hf e e' he hbody
    have hfeed := not_mem_of_mem_fragments hf
    exact Reader.unbroken_bodyLine he (fun hmem => hfeed (Reader.bodyText_subset _ hmem)) hbody

/-! ## Converted code -/

open Target.Ruby (Blocks BlocksMatch)

/-- The blocks of a generated listing match, for all texts and options. -/
theorem blocksMatch_of_generate {memory : Nat} {text : String} {options : Options} {out : Generated}
    (h : generate memory .ruby options (Reading.ofText text).diagram = .ok out) :
    BlocksMatch (flushLines out.code) := by
  have hlines := Document.blocks_lines (Reader.wellFormed_after _) (unbroken_ofText text)
    options.supertypesFirst
  rw [flushLines_of_generate h]
  exact (Blocks.append hlines (.plain (by decide) (by decide))).blocksMatch

/-- The blocks of Ruby code match, whatever the text and the options, and there is code
for every text that is not blank if the deepest step is of a possible width. -/
theorem convert_blocksMatch (memory : Nat) (text name : String)
    (hname : Language.ofName? name = some .ruby) :
    (∀ options c, convert memory text name options = .ok c → BlocksMatch (flushLines c.output.code)) ∧
      (∀ settings c, convertWith memory text name settings = .ok c →
        BlocksMatch (flushLines c.output.code)) ∧
      ∀ options : Options, allBlank text.toList = false →
        widthFault? memory (Language.ruby.deepest (Reading.ofText text).diagram *
          options.indentSize.getD Language.ruby.emitter.indentSize) = none →
        (∃ c, convert memory text name options = .ok c) ∧
          ∀ settings, Options.ofSetting settings = .ok options →
            ∃ c, convertWith memory text name settings = .ok c := by
  have hconvert : ∀ options c, convert memory text name options = .ok c →
      BlocksMatch (flushLines c.output.code) := by
    intro options c hc
    obtain ⟨l, hl, hgenerate⟩ := generate_of_convert hc
    obtain rfl := Option.some.inj (hname.symm.trans hl)
    exact blocksMatch_of_generate hgenerate
  refine ⟨hconvert, fun settings c hc => ?_, fun options htext hwidth => ?_⟩
  · obtain ⟨options, hoptions⟩ := convert_of_convertWith hc
    exact hconvert options c hoptions
  · obtain ⟨output, houtput⟩ := exists_generate_of_width hwidth
    have hok := convert_of_generate htext hname houtput
    refine ⟨⟨_, hok⟩, fun settings hsettings => ?_⟩
    rw [convertWith_of_ofSetting htext hsettings]
    exact ⟨_, hok⟩

/-- A text whose names are the words that open and close blocks, with braces that have no
partner. -/
def keywordText : String :=
  "package \"end.def-1.!\" \x7b\nabstract class class<T> extends module \x7b\n" ++
    "- \x7bstatic\x7d end : int\n# def : T\n# \x7bstatic\x7d module(private, end)\n" ++
    "+ class(end)\n\x7d\nenum end \x7b\ndef, module\n\x7d\n\x7d\nclass module\n" ++
    "interface private \x7b\n+ end()\n\x7d \x7d \x7b"

/-- Names that are key words of the target are no exception. -/
theorem convert_blocksMatch_keywords :
    (Reading.ofText keywordText).diagram.packages = [("end.def-1.!", ["class", "end"])] ∧
    (Reading.ofText keywordText).diagram.entities.map (·.name) =
      ["class", "end", "module", "private"] ∧
    ∃ c, convert 80 keywordText "Ruby " {} = .ok c ∧ BlocksMatch (flushLines c.output.code) := by
  have hread : (Reading.ofText keywordText).diagram.packages = [("end.def-1.!", ["class", "end"])] ∧
      (Reading.ofText keywordText).diagram.entities.map (·.name) =
        ["class", "end", "module", "private"] ∧
      Language.ruby.deepest (Reading.ofText keywordText).diagram = 2 := by
    decide +kernel
  obtain ⟨hpackages, hnames, hdeepest⟩ := hread
  have hname : Language.ofName? "Ruby " = some .ruby := by decide
  obtain ⟨hmatch, -, hexists⟩ := convert_blocksMatch 80 keywordText "Ruby " hname
  obtain ⟨⟨c, hc⟩, -⟩ := hexists {} (by decide +kernel) (by rw [hdeepest]; decide)
  exact ⟨hpackages, hnames, c, hc, hmatch {} c hc⟩

end ClassSketch
