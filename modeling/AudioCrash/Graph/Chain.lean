import AudioCrash.Graph.Pads

/-!
# Chains of filters

A description of filters one after the other, from the source to the sink, is read back as it
was meant: whatever the names and arguments are, when they are escaped, and whether two filters
are joined by a comma or by a label, with spaces anywhere in between. The description that
`make_dump_flt` puts together is one of these, for every angle and width.

## Main definitions

* `Spec`, `Joint`, `End`, `Chain` — descriptions, and `Chain.print`.
* `Entry` — where a filter is entered.
* `chained` — the graph that is meant.
* `avfilterGraphParsePtr_print`, `makeFlt_makeDumpFlt`.
-/

namespace AudioCrash.Graph

/-! ## Descriptions -/

/-- A filter of a description. -/
structure Spec where
  name : Text
  args : Option Text

/-- Any spaces. -/
abbrev Spaces := { w : Text // ∀ c ∈ w, isSpace c = true }

def noSpace : Spaces := ⟨[], List.all_eq_true.1 rfl⟩
def space : Spaces := ⟨" ".toList, List.all_eq_true.1 rfl⟩
def newline : Spaces := ⟨"\n".toList, List.all_eq_true.1 rfl⟩

/-- What stands between two filters. -/
inductive Joint where
  | comma (w w' : Spaces)
  | label (l : Text) (w w₁ w₂ w₃ : Spaces)

/-- The label of a joint is no empty one, and not that of the sink. -/
def Joint.Fits : Joint → Prop
  | comma _ _ => True
  | label l _ _ _ _ => l ≠ [] ∧ l ≠ "out".toList

/-- Where the text of a filter starts: after a comma, after the label of the pad that it is
joined to, or at the start of the description. -/
inductive Entry where
  | comma (w : Spaces)
  | label (l : Text) (w w' : Spaces)
  | start (w : Spaces)

/-- What stands after the last filter. -/
inductive End where
  | bare (w : Spaces)
  | label (w w' : Spaces)

section print
variable (mode : EscapeMode)

/-- A token with all its characters taken literally. -/
def literal (special s : Text) : Text := avBprintEscape s special mode ⟨false, false⟩

def printLabel (l : Text) : Text := '[' :: literal mode [']'] l ++ [']']

def Spec.print (f : Spec) : Text :=
  literal mode "=,;[".toList f.name ++
    f.args.elim [] fun args => '=' :: literal mode "[],;".toList args

def Entry.print : Entry → Text
  | comma w => w.1
  | label l w w' => w.1 ++ printLabel mode l ++ w'.1
  | start w => w.1

/-- What is left to the filter before. -/
def Joint.print : Joint → Text
  | comma w _ => w.1 ++ [',']
  | label l w w₁ _ _ => w.1 ++ printLabel mode l ++ w₁.1 ++ [';']

/-- What the filter after is entered with. -/
def Joint.entry : Joint → Entry
  | comma _ w' => .comma w'
  | label l _ _ w₂ w₃ => .label l w₂ w₃

def End.print : End → Text
  | bare w => w.1
  | label w w' => w.1 ++ printLabel mode "out".toList ++ w'.1

end print

/-- The filters of a description, and what stands between and after them. -/
inductive Chain where
  | last (f : Spec) (e : End)
  | cons (f : Spec) (j : Joint) (rest : Chain)

namespace Chain

def filters : Chain → List Spec
  | last f _ => [f]
  | cons f _ rest => f :: rest.filters

def print (mode : EscapeMode) : Chain → Text
  | last f e => f.print mode ++ e.print mode
  | cons f j rest => f.print mode ++ (j.print mode ++ (j.entry.print mode ++ rest.print mode))

/-- What stands in between fits. -/
def Fits : Chain → Prop
  | last _ _ => True
  | cons _ j rest => j.Fits ∧ rest.Fits

end Chain

/-! ## The graph that is meant -/

/-- The instance that is made of a filter. -/
def Spec.context (opts : Option Text) (index : ℕ) (f : Spec) : FilterContext :=
  let (filtName, instName) := filterNames f.name index
  ⟨instName, filtName, scaleArgs opts filtName f.args, [.video], [.video]⟩

/-- There is the filter, with one input and one output for these arguments. -/
structure Spec.Fits (lib : Filters) (opts : Option Text) (index : ℕ) (f : Spec) : Prop where
  name : f.name ≠ []
  getByName : lib.getByName (filterNames f.name index).1 = true
  initStr : lib.initStr (filterNames f.name index).1
    (scaleArgs opts (filterNames f.name index).1 f.args) = .ok ([.video], [.video])

/-- The filters in their order, each linked to the one before, the first to `prev`, and the last
to `sink`. -/
def chained (g : FilterGraph) (index : ℕ) (prev sink : Pad) (fs : List Spec) : FilterGraph :=
  let pads := (List.range fs.length).map fun i => (⟨g.filters.length + i, 0⟩ : Pad)
  { g with
    filters := g.filters ++ fs.mapIdx fun i f => f.context g.scaleSwsOpts (index + i)
    links := g.links ++ List.zipWith Link.mk (prev :: pads) (pads ++ [sink]) }

/-- The graph with one filter more. -/
def added (g : FilterGraph) (index : ℕ) (f : Spec) : FilterGraph :=
  { g with filters := g.filters ++ [f.context g.scaleSwsOpts index] }

/-- The graph with one filter more, which is linked to the one before. -/
def joined (g : FilterGraph) (index : ℕ) (prev : Pad) (f : Spec) : FilterGraph :=
  { added g index f with links := g.links ++ [⟨prev, ⟨g.filters.length, 0⟩⟩] }

section graph
variable {lib : Filters} {g : FilterGraph} {index : ℕ} {prev sink : Pad} {f : Spec}

theorem chained_nil :
    chained g index prev sink [] = { g with links := g.links ++ [⟨prev, sink⟩] } := by
  simp [chained]

theorem chained_cons (fs : List Spec) :
    chained g index prev sink (f :: fs) =
      chained (joined g index prev f) (index + 1) ⟨g.filters.length, 0⟩ sink fs := by
  have hpads : (List.range (fs.length + 1)).map (fun i => (⟨g.filters.length + i, 0⟩ : Pad)) =
      ⟨g.filters.length, 0⟩ ::
        (List.range fs.length).map fun i => ⟨g.filters.length + 1 + i, 0⟩ := by
    rw [List.range_succ_eq_map, List.map_cons, List.map_map, Nat.add_zero]
    refine congrArg _ (List.map_congr_left fun i _ => ?_)
    rw [Function.comp_apply, Nat.succ_eq_add_one, Nat.add_right_comm, Nat.add_assoc]
  have hcontexts : (f :: fs).mapIdx (fun i f => f.context g.scaleSwsOpts (index + i)) =
      f.context g.scaleSwsOpts index ::
        fs.mapIdx fun i f => f.context g.scaleSwsOpts (index + 1 + i) := by
    rw [List.mapIdx_cons, Nat.add_zero]
    refine congrArg _ (congrArg (fun h => List.mapIdx h fs) ?_)
    funext i f
    rw [Nat.add_right_comm, Nat.add_assoc]
  simp only [chained, joined, added, List.length_cons, hpads, hcontexts, List.length_append,
    List.length_nil, List.cons_append, List.zipWith_cons_cons, List.append_assoc,
    List.nil_append]

/-! ## One filter -/

/-- A free pad is not linked again. -/
theorem avfilterLink_eq {src dst : Pad} {I O : List Pad} {t : MediaType}
    (h : Accounts g (dst :: I) (src :: O)) (hsrc : g.outputType src = some t)
    (hdst : g.inputType dst = some t) :
    avfilterLink g src dst = Flow.next { g with links := g.links ++ [⟨src, dst⟩] } := by
  have hfree : ∀ {linked rest pads : List Pad} {p : Pad}, (linked ++ p :: rest).Perm pads →
      pads.Nodup → p ∉ linked := by
    intro linked rest pads p hperm hnodup hp
    have hdisjoint := List.disjoint_of_nodup_append (hperm.nodup_iff.2 hnodup)
    exact hdisjoint hp List.mem_cons_self
  have hsrc' : ¬ ((g.links.any fun l => l.src = src) || g.links.any fun l => l.dst = dst) =
      true := by
    have hs := hfree h.outputs (nodup_flatMap_padsOf _ _)
    have hd := hfree h.inputs (nodup_flatMap_padsOf _ _)
    rw [Bool.or_eq_true, not_or, List.any_eq_true, List.any_eq_true]
    constructor
    · rintro ⟨l, hl, heq⟩
      exact hs (List.mem_map.2 ⟨l, hl, of_decide_eq_true heq⟩)
    · rintro ⟨l, hl, heq⟩
      exact hd (List.mem_map.2 ⟨l, hl, of_decide_eq_true heq⟩)
  simp only [avfilterLink, hsrc, hdst]
  rw [if_neg hsrc', if_neg (not_not.2 rfl)]

theorem createFilter_eq (h : f.Fits lib g.scaleSwsOpts index) :
    createFilter lib g index f.name f.args = Flow.next (added g index f) := by
  simp only [createFilter, h.getByName, if_true, h.initStr, added, Spec.context]

end graph

/-! ## Tokens and labels -/

section tokens
variable (mode : EscapeMode)

/-- A filter ends here. -/
def Cut (rest : Text) : Prop := ∀ c ∈ rest.head?, c = ',' ∨ c = ';' ∨ c = '['

theorem getToken_literal {term : Text} (hterm : Terminators term) (s : Text) (w : Spaces)
    {rest : Text} (hrest : Stop term rest) :
    getToken term (literal mode term s ++ (w.1 ++ rest)) = (s, rest) := by
  have htoken : getToken term ([] ++ literal mode term s ++ w.1 ++ rest) = (s, rest) :=
    getToken_avBprintEscape hterm (fun _ hc => hc) rfl mode s
      (fun _ hc => absurd hc List.not_mem_nil) ⟨w.2, hrest⟩
  rwa [List.nil_append, List.append_assoc] at htoken

theorem parseLinkName_print {l : Text} (hl : l ≠ []) (rest : Text) :
    parseLinkName (printLabel mode l ++ rest) = some (l, rest) := by
  have hstop : Stop [']'] (']' :: rest) := by simp [Stop]
  have htoken := getToken_literal mode terminators_label l ⟨[], by simp⟩ hstop
  simp only [List.nil_append] at htoken
  simp only [parseLinkName, printLabel, List.cons_append, List.append_assoc, List.nil_append,
    List.tail_cons, htoken, if_neg hl, List.head?_cons, if_true]

theorem parseFilter_print {lib : Filters} (f : Spec) (w : Spaces) {rest : Text} (hrest : Cut rest)
    (g : FilterGraph) (index : ℕ) :
    parseFilter lib (f.print mode ++ (w.1 ++ rest)) g index =
      (createFilter lib g index f.name f.args).bind fun g => Flow.next (rest, g) := by
  have hname : Stop "=,;[".toList rest := by
    intro c hc
    rcases hrest c hc with rfl | rfl | rfl <;> decide
  have hargs : Stop "[],;".toList rest := by
    intro c hc
    rcases hrest c hc with rfl | rfl | rfl <;> decide
  have hequals : rest.head? ≠ some '=' := by
    intro heq
    rcases hrest '=' heq with h | h | h
    · exact absurd h (by decide)
    · exact absurd h (by decide)
    · exact absurd h (by decide)
  rcases f with ⟨name, args⟩
  cases args with
  | none =>
    have htoken := getToken_literal mode terminators_name name w hname
    simp only [parseFilter, Spec.print, Option.elim_none, List.append_nil, htoken, if_neg hequals]
  | some args =>
    have hstop : Stop "=,;[".toList ('=' :: (literal mode "[],;".toList args ++ (w.1 ++ rest))) :=
      by simp [Stop]
    have htoken := getToken_literal mode terminators_name name ⟨[], by simp⟩ hstop
    have hopts := getToken_literal mode terminators_args args w hargs
    simp only [List.nil_append] at htoken
    simp only [parseFilter, Spec.print, Option.elim_some, List.append_assoc, List.cons_append,
      htoken, List.head?_cons, if_true, List.tail_cons, hopts]

/-- A filter with a name starts with no space, and with no bracket. -/
theorem print_head {f : Spec} (hname : f.name ≠ []) (rest : Text) :
    ∃ c text, f.print mode ++ rest = c :: text ∧ isSpace c = false ∧ c ≠ '[' := by
  obtain ⟨c, text, heq, hspace, hc⟩ : ∃ c text, literal mode "=,;[".toList f.name = c :: text ∧
      isSpace c = false ∧ (c = quote ∨ c = backslash ∨ c ∉ "=,;[".toList) :=
    avBprintEscape_head rfl mode hname
  refine ⟨c, text ++ (f.args.elim [] fun args => '=' :: literal mode "[],;".toList args) ++ rest,
    ?_, hspace, ?_⟩
  · rw [Spec.print, heq]
    rfl
  · rcases hc with rfl | rfl | hmem
    · decide
    · decide
    · rintro rfl
      exact hmem (by decide)

theorem skipSpaces_append (w : Spaces) {c : Char} {text : Text} (hc : isSpace c = false) :
    skipSpaces (w.1 ++ c :: text) = c :: text := by
  rw [skipSpaces, List.dropWhile_append_of_pos w.2, List.dropWhile_cons_of_neg]
  rw [hc]
  exact Bool.false_ne_true

/-! ## One filter of a description -/

/-- What is left in `curr_inputs` where a filter is entered. -/
def Entry.currInputs (prev : Pad) : Entry → List InOut
  | comma _ => [⟨none, prev⟩]
  | _ => []

/-- The open outputs where a filter is entered. -/
def Entry.openOutputs (prev : Pad) : Entry → List InOut
  | comma _ => []
  | label l _ _ => [⟨some l, prev⟩]
  | start _ => [⟨some "in".toList, prev⟩]

/-- The label is not empty, and only the first filter is entered at the start. -/
def Entry.Fits (index : ℕ) : Entry → Prop
  | comma _ => True
  | label l _ _ => l ≠ []
  | start _ => index = 0

/-- What is parsed of the inputs: the pad that the filter is joined to, or nothing at the
start. -/
def Entry.inputs (prev : Pad) (buf : Text) : Entry → Inputs
  | comma _ => ⟨buf, [.output ⟨none, prev⟩], []⟩
  | label l _ _ => ⟨buf, [.output ⟨some l, prev⟩], []⟩
  | start _ => ⟨buf, [], [⟨some "in".toList, prev⟩]⟩

theorem parseInputs_entry {e : Entry} {index : ℕ} (he : e.Fits index) (prev : Pad) {c : Char}
    {text : Text} (hspace : isSpace c = false) (hc : c ≠ '[') :
    parseInputs (skipSpaces (e.print mode ++ c :: text)) (e.currInputs prev)
      (e.openOutputs prev) = Flow.next (e.inputs prev (c :: text)) := by
  have hstop : ∀ (parsed : List Input) (outputs : List InOut),
      Inputs.atLabel ⟨c :: text, parsed, outputs⟩ = false := by
    intro parsed outputs
    simpa [Inputs.atLabel] using hc
  cases e with
  | comma w =>
    rw [Entry.print, skipSpaces_append w hspace, parseInputs, Flow.whileLoop_of_not (hstop _ _)]
    rfl
  | label l w w' =>
    have hskip : skipSpaces (w.1 ++ (printLabel mode l ++ (w'.1 ++ c :: text))) =
        printLabel mode l ++ (w'.1 ++ c :: text) := skipSpaces_append w rfl
    have hstep : parseInput ⟨printLabel mode l ++ (w'.1 ++ c :: text), [], [⟨some l, prev⟩]⟩ =
        Flow.next ⟨c :: text, [.output ⟨some l, prev⟩], []⟩ := by
      simp only [parseInput, parseLinkName_print mode he, skipSpaces_append w' hspace]
      simp [InOut.isNamed]
    have hbracket : Inputs.atLabel ⟨printLabel mode l ++ (w'.1 ++ c :: text), [],
        [⟨some l, prev⟩]⟩ = true := rfl
    rw [Entry.print, List.append_assoc, List.append_assoc, hskip, parseInputs, Entry.openOutputs,
      Flow.whileLoop_succ hbracket, hstep, Flow.bind_next, Flow.whileLoop_of_not (hstop _ _)]
    rfl
  | start w =>
    rw [Entry.print, skipSpaces_append w hspace, parseInputs, Flow.whileLoop_of_not (hstop _ _)]
    rfl

end tokens

section chain
variable (mode : EscapeMode) {lib : Filters} {s : Parser} {e : Entry} {f : Spec} {prev sink : Pad}

/-- The parser is where a filter is entered. -/
structure Entered (s : Parser) (e : Entry) (prev sink : Pad) : Prop where
  fits : e.Fits s.index
  currInputs : s.currInputs = e.currInputs prev
  openOutputs : s.openOutputs = e.openOutputs prev
  openInputs : s.openInputs = [⟨some "out".toList, sink⟩]
  accounts : s.Accounts
  prev : s.graph.outputType prev = some .video
  sink : s.graph.inputType sink = some .video

/-- The parser has a filter more, whose output is left. -/
def afterFilter (s : Parser) (prev : Pad) (f : Spec) (buf : Text) : Parser :=
  { s with
    buf := buf
    graph := joined s.graph s.index prev f
    currInputs := [⟨none, ⟨s.graph.filters.length, 0⟩⟩]
    openOutputs := [] }

theorem added_filter (g : FilterGraph) (index : ℕ) (f : Spec) :
    (added g index f).filters[g.filters.length]? = some (f.context g.scaleSwsOpts index) :=
  List.getElem?_concat_length

/-- The label of the source may be left out. -/
theorem Entry.default (e : Entry) {index : ℕ} (he : e.Fits index) (prev : Pad) (buf : Text) :
    ∃ buf' name, (if 1 = 1 ∧ (e.inputs prev buf).parsed = [] ∧ index = 0 then
        parseInputs "[in]".toList [] (e.inputs prev buf).openOutputs
      else Flow.next (e.inputs prev buf)) = Flow.next ⟨buf', [.output ⟨name, prev⟩], []⟩ := by
  cases e with
  | comma w => exact ⟨buf, none, if_neg fun h => absurd h.2.1 (List.cons_ne_nil _ _)⟩
  | label l w w' => exact ⟨buf, some l, if_neg fun h => absurd h.2.1 (List.cons_ne_nil _ _)⟩
  | start w =>
    refine ⟨[], some "in".toList, ?_⟩
    rw [if_pos ⟨rfl, rfl, he⟩]
    rfl

/-- The new filter has an input and an output that are open. -/
theorem Entered.added_accounts (h : Entered s e prev sink) (f : Spec) :
    Accounts (added s.graph s.index f) [⟨s.graph.filters.length, 0⟩, sink]
      [prev, ⟨s.graph.filters.length, 0⟩] := by
  have hfilter := added_filter s.graph s.index f
  have hnb : (added s.graph s.index f).nbInputs s.graph.filters.length = 1 := by
    rw [FilterGraph.nbInputs, hfilter]
    rfl
  have hnb' : (added s.graph s.index f).nbOutputs s.graph.filters.length = 1 := by
    rw [FilterGraph.nbOutputs, hfilter]
    rfl
  have hopen : (s.openOutputs ++ s.currInputs).map InOut.pad = [prev] := by
    rw [h.openOutputs, h.currInputs]
    cases e <;> rfl
  have haccounts : Accounts (added s.graph s.index f) _ _ := h.accounts.concat rfl
  rw [hnb, hnb', h.openInputs, hopen] at haccounts
  exact haccounts.perm (List.Perm.swap _ _ _) (List.Perm.refl _)

/-- The input is linked to the filter before. -/
theorem Entered.avfilterLink_added (h : Entered s e prev sink) (f : Spec) :
    avfilterLink (added s.graph s.index f) prev ⟨s.graph.filters.length, 0⟩ =
      Flow.next (joined s.graph s.index prev f) := by
  refine avfilterLink_eq (t := .video) (h.added_accounts f) (outputType_concat h.prev) ?_
  rw [FilterGraph.inputType, added_filter]
  rfl

/-- The output is open. -/
theorem Entered.joined_accounts (h : Entered s e prev sink) (f : Spec) :
    Accounts (joined s.graph s.index prev f) [sink] [⟨s.graph.filters.length, 0⟩] := by
  have hlink : Flow.Holds _ (Fails oneVideo) (avfilterLink (added s.graph s.index f) prev
    ⟨s.graph.filters.length, 0⟩) := avfilterLink_accounts (h.added_accounts f)
  rw [h.avfilterLink_added f, Flow.holds_next] at hlink
  exact hlink.1

theorem outputType_joined (g : FilterGraph) (index : ℕ) (prev : Pad) (f : Spec) :
    (joined g index prev f).outputType ⟨g.filters.length, 0⟩ = some .video := by
  rw [FilterGraph.outputType, joined, added_filter]
  rfl

theorem linkFilterInouts_eq (h : Entered s e prev sink) (f : Spec) (name : Option Text) :
    linkFilterInouts s.graph.filters.length
      ⟨added s.graph s.index f, [.output ⟨name, prev⟩], s.openInputs⟩ =
      Flow.next ⟨joined s.graph s.index prev f, [], s.openInputs⟩ := by
  have hnb : (added s.graph s.index f).nbInputs s.graph.filters.length = 1 := by
    rw [FilterGraph.nbInputs, added_filter]
    rfl
  have hinput : linkInput s.graph.filters.length 0
      ⟨added s.graph s.index f, [.output ⟨name, prev⟩], s.openInputs⟩ =
      Flow.next ⟨joined s.graph s.index prev f, [], s.openInputs⟩ := by
    rw [linkInput]
    exact congrArg (fun y => Flow.bind y _) (h.avfilterLink_added f)
  rw [linkFilterInouts, hnb, List.range_one, Flow.forEach_cons, hinput]
  rfl

/-- **One filter of a description** is created, and linked to the one before. -/
theorem Entered.parseChain_eq (h : Entered s e prev sink)
    (hf : f.Fits lib s.graph.scaleSwsOpts s.index) {w : Spaces} {rest : Text}
    (hbuf : s.buf = e.print mode ++ (f.print mode ++ (w.1 ++ rest))) (hrest : Cut rest) :
    parseChain lib s = (parseOutputs (afterFilter s prev f rest)).bind endChain := by
  rcases print_head mode hf.name (w.1 ++ rest) with ⟨c, text, htext, hspace, hc⟩
  rcases e.default h.fits prev (c :: text) with ⟨buf', name, hdefault⟩
  have hnb : (added s.graph s.index f).nbInputs s.graph.filters.length = 1 := by
    rw [FilterGraph.nbInputs, added_filter]
    rfl
  have houtputs : outputsOf (joined s.graph s.index prev f) s.graph.filters.length =
      [⟨none, ⟨s.graph.filters.length, 0⟩⟩] := by
    rw [outputsOf, FilterGraph.nbOutputs, joined, added_filter]
    rfl
  have hlink := linkFilterInouts_eq h f name
  have hbuf' : (e.inputs prev (c :: text)).buf = f.print mode ++ (w.1 ++ rest) := by
    rw [htext]
    cases e <;> rfl
  rw [parseChain, hbuf, htext, h.currInputs, h.openOutputs,
    parseInputs_entry mode h.fits prev hspace hc, Flow.bind_next, hbuf',
    parseFilter_print mode f w hrest,
    createFilter_eq hf, Flow.bind_next, Flow.bind_next]
  dsimp only
  rw [hnb, hdefault, Flow.bind_next, hlink, Flow.bind_next, houtputs]
  rfl

theorem Cut.cons_comma (rest : Text) : Cut (',' :: rest) := by simp [Cut]

theorem Cut.printLabel (l rest : Text) : Cut (printLabel mode l ++ rest) := by
  simp [Cut, Graph.printLabel]

/-- The spaces after a filter. -/
def Joint.spaces : Joint → Spaces
  | comma w _ => w
  | label _ w _ _ _ => w

/-- What of a joint is left to the filter before, without the spaces. -/
def Joint.tail : Joint → Text
  | comma _ _ => [',']
  | label l _ w₁ _ _ => printLabel mode l ++ (w₁.1 ++ [';'])

theorem Joint.print_eq (j : Joint) : j.print mode = j.spaces.1 ++ j.tail mode := by
  cases j with
  | comma w w' => rfl
  | label l w w₁ w₂ w₃ => simp only [print, spaces, tail, List.append_assoc]

/-- After a joint the next filter is entered. -/
theorem Entered.joint (h : Entered s e prev sink) (f : Spec) {j : Joint} (hj : j.Fits)
    (rest : Text) :
    ∃ c, (c = some ',' ∨ c = some ';') ∧
      (parseOutputs (afterFilter s prev f (j.tail mode ++ rest))).bind endChain = Flow.next
        { afterFilter s prev f rest with
          currInputs := j.entry.currInputs ⟨s.graph.filters.length, 0⟩
          openOutputs := j.entry.openOutputs ⟨s.graph.filters.length, 0⟩
          chr := c
          index := s.index + 1 } := by
  cases j with
  | comma w w' =>
    refine ⟨some ',', Or.inl rfl, ?_⟩
    have hstop : (afterFilter s prev f (',' :: rest)).atLabel = false := rfl
    rw [Joint.tail, List.cons_append, List.nil_append, parseOutputs, Flow.whileLoop_of_not hstop]
    rfl
  | label l w w₁ w₂ w₃ =>
    refine ⟨some ';', Or.inr rfl, ?_⟩
    have hstep : parseOutput (afterFilter s prev f (printLabel mode l ++ (w₁.1 ++ ';' :: rest))) =
        Flow.next { afterFilter s prev f (';' :: rest) with
          currInputs := []
          openOutputs := [⟨some l, ⟨s.graph.filters.length, 0⟩⟩] } := by
      have hout : "out".toList ≠ l := fun heq => hj.2 heq.symm
      have hname : ([⟨some "out".toList, sink⟩] : List InOut).find? (InOut.isNamed l) = none := by
        simpa [InOut.isNamed] using hout
      simp only [parseOutput, afterFilter, parseLinkName_print mode hj.1, h.openInputs, hname,
        skipSpaces_append w₁ (show isSpace ';' = false from rfl)]
    have hbracket : (afterFilter s prev f (printLabel mode l ++ (w₁.1 ++ ';' :: rest))).atLabel =
        true := rfl
    have hstop : ({ afterFilter s prev f (';' :: rest) with
        currInputs := []
        openOutputs := [⟨some l, ⟨s.graph.filters.length, 0⟩⟩] } : Parser).atLabel = false := rfl
    rw [Joint.tail, List.append_assoc, List.append_assoc, List.singleton_append, parseOutputs,
      Flow.whileLoop_succ hbracket, hstep, Flow.bind_next, Flow.whileLoop_of_not hstop]
    rfl

/-- The label of the sink, after the last filter. -/
theorem parseOutputs_out {t : Parser} {p : Pad} (haccounts : t.Accounts)
    (hcurr : t.currInputs = [⟨none, p⟩]) (hopen : t.openInputs = [⟨some "out".toList, sink⟩])
    (hp : t.graph.outputType p = some .video) (hsink : t.graph.inputType sink = some .video)
    (w : Spaces) (hbuf : t.buf = printLabel mode "out".toList ++ w.1) :
    parseOutputs t = Flow.next { t with
      buf := []
      graph := { t.graph with links := t.graph.links ++ [⟨p, sink⟩] }
      currInputs := []
      openInputs := [] } := by
  have hskip : skipSpaces w.1 = [] := by
    rw [skipSpaces, List.dropWhile_eq_nil_iff]
    exact w.2
  have hlink : avfilterLink t.graph p sink =
      Flow.next { t.graph with links := t.graph.links ++ [⟨p, sink⟩] } := by
    have hpads : Graph.Accounts t.graph [sink]
        ((t.openOutputs ++ [(⟨none, p⟩ : InOut)]).map InOut.pad) := by
      have hpads' := haccounts
      rw [Parser.Accounts, hopen, hcurr] at hpads'
      exact hpads'
    rw [List.map_append] at hpads
    exact avfilterLink_eq (hpads.perm (List.Perm.refl _) List.perm_append_comm) hp hsink
  have hstep : parseOutput t = Flow.next { t with
      buf := []
      graph := { t.graph with links := t.graph.links ++ [⟨p, sink⟩] }
      currInputs := []
      openInputs := [] } := by
    have hname : parseLinkName t.buf = some ("out".toList, w.1) := by
      rw [hbuf]
      exact parseLinkName_print mode (by decide) w.1
    have hfind : ([⟨some "out".toList, sink⟩] : List InOut).find?
        (InOut.isNamed "out".toList) = some ⟨some "out".toList, sink⟩ := rfl
    have herase : ([⟨some "out".toList, sink⟩] : List InOut).eraseP
        (InOut.isNamed "out".toList) = [] := rfl
    simp only [parseOutput, hname, hcurr, hopen, hfind, herase, hlink, hskip, Flow.bind_next]
  have hbracket : t.atLabel = true := by
    rw [Parser.atLabel, hbuf]
    rfl
  rw [parseOutputs, Flow.whileLoop_succ hbracket, hstep, Flow.bind_next]
  exact Flow.whileLoop_of_not rfl _

/-- **The next filter is entered.** -/
theorem Entered.step (h : Entered s e prev sink) (hf : f.Fits lib s.graph.scaleSwsOpts s.index)
    {j : Joint} (hj : j.Fits) {rest : Text}
    (hbuf : s.buf = e.print mode ++ (f.print mode ++ (j.print mode ++ rest))) :
    ∃ s', parseChain lib s = Flow.next s' ∧ s'.more = true ∧ s'.buf = rest ∧
      s'.index = s.index + 1 ∧ s'.graph = joined s.graph s.index prev f ∧
      Entered s' j.entry ⟨s.graph.filters.length, 0⟩ sink := by
  rw [Joint.print_eq, List.append_assoc] at hbuf
  have hcut : Cut (j.tail mode ++ rest) := by
    cases j with
    | comma w w' => exact Cut.cons_comma _
    | label l w w₁ w₂ w₃ =>
      rw [Joint.tail, List.append_assoc]
      exact Cut.printLabel mode l _
  rcases h.joint mode f hj rest with ⟨c, hc, hjoint⟩
  rw [h.parseChain_eq mode hf hbuf hcut, hjoint]
  refine ⟨_, rfl, ?_, rfl, rfl, rfl, ?_⟩
  · rcases hc with rfl | rfl
    · rfl
    · rfl
  · refine ⟨?fits, rfl, rfl, h.openInputs, ?accounts, outputType_joined _ _ _ _,
      inputType_concat h.sink⟩
    case fits =>
      cases j with
      | comma w w' => trivial
      | label l w w₁ w₂ w₃ => exact hj.1
    case accounts =>
      rw [Parser.Accounts]
      dsimp only [afterFilter]
      rw [h.openInputs]
      cases j with
      | comma w w' => exact h.joined_accounts f
      | label l w w₁ w₂ w₃ => exact h.joined_accounts f

/-- The description has come to its end. -/
theorem endChain_nil {t : Parser} (h : t.buf = []) :
    endChain t = Flow.next { t with buf := [], chr := none, index := t.index + 1 } := by
  rw [endChain, h]
  rfl

/-- The graph is finished, and nothing is open. -/
structure Finished (g : FilterGraph) (s : Parser) : Prop where
  graph : s.graph = g
  openInputs : s.openInputs = []
  openOutputs : s.openOutputs = []
  currInputs : s.currInputs = []

/-- **The last filter is linked to the sink.** -/
theorem Entered.last (h : Entered s e prev sink) (hf : f.Fits lib s.graph.scaleSwsOpts s.index)
    {e' : End} (hbuf : s.buf = e.print mode ++ (f.print mode ++ e'.print mode)) (fuel : ℕ) :
    ∃ s', ((parseChain lib s).bind (Flow.whileLoop Parser.more (parseChain lib) fuel)).bind
        parseEnd = Flow.next s' ∧
      Finished (chained s.graph s.index prev sink [f]) s' := by
  have hchained : chained s.graph s.index prev sink [f] =
      { joined s.graph s.index prev f with
        links := (joined s.graph s.index prev f).links ++
          [⟨⟨s.graph.filters.length, 0⟩, sink⟩] } := by
    rw [chained_cons, chained_nil]
  have haccounts : ∀ buf chr index, Parser.Accounts
      { afterFilter s prev f buf with chr := chr, index := index } := by
    intro buf chr index
    rw [Parser.Accounts]
    dsimp only [afterFilter]
    rw [h.openInputs]
    exact h.joined_accounts f
  have hsink : (joined s.graph s.index prev f).inputType sink = some .video :=
    inputType_concat h.sink
  rw [hchained]
  cases e' with
  | bare w =>
    have hparse : parseChain lib s = (parseOutputs (afterFilter s prev f [])).bind endChain :=
      h.parseChain_eq mode hf (w := w) (by rw [hbuf, List.append_nil]; rfl)
        (fun _ hc => absurd hc (by simp))
    have hempty : parseOutputs (afterFilter s prev f []) = Flow.next (afterFilter s prev f []) :=
      Flow.whileLoop_of_not rfl _
    have hout := parseOutputs_out .backslash (haccounts "[out]".toList none (s.index + 1)) rfl
      h.openInputs (outputType_joined _ _ _ _) hsink ⟨[], by simp⟩ rfl
    rw [hparse, hempty, Flow.bind_next, endChain_nil rfl, Flow.bind_next,
      Flow.whileLoop_of_not rfl, Flow.bind_next]
    exact ⟨_, hout, rfl, rfl, rfl, rfl⟩
  | label w w' =>
    have hparse : parseChain lib s =
        (parseOutputs (afterFilter s prev f (printLabel mode "out".toList ++ w'.1))).bind
          endChain :=
      h.parseChain_eq mode hf (w := w) (by rw [hbuf, End.print, List.append_assoc])
        (Cut.printLabel mode _ _)
    have hout := parseOutputs_out mode
      (haccounts (printLabel mode "out".toList ++ w'.1) s.chr s.index) rfl h.openInputs
      (outputType_joined _ _ _ _) hsink w' rfl
    have houtputs : parseOutputs (afterFilter s prev f (printLabel mode "out".toList ++ w'.1)) =
      _ := hout
    rw [hparse, houtputs, Flow.bind_next, endChain_nil rfl, Flow.bind_next,
      Flow.whileLoop_of_not rfl, Flow.bind_next]
    refine ⟨_, rfl, ?_⟩
    exact ⟨rfl, rfl, rfl, rfl⟩

/-- **A description of a chain is read back**, from where its first filter is entered. -/
theorem parse_chain (c : Chain) (h : Entered s e prev sink)
    (hbuf : s.buf = e.print mode ++ c.print mode) (hc : c.Fits)
    (hfits : ∀ (i : ℕ) (f : Spec), c.filters[i]? = some f →
      f.Fits lib s.graph.scaleSwsOpts (s.index + i)) (fuel : ℕ) (hfuel : c.filters.length ≤ fuel) :
    ∃ s', ((parseChain lib s).bind (Flow.whileLoop Parser.more (parseChain lib) fuel)).bind
        parseEnd = Flow.next s' ∧
      Finished (chained s.graph s.index prev sink c.filters) s' := by
  induction c generalizing s e prev fuel with
  | last f e' => exact h.last mode (hfits 0 f rfl) hbuf fuel
  | cons f j rest ih =>
    rcases h.step mode (hfits 0 f rfl) hc.1 hbuf with
      ⟨s₁, hs₁, hmore, hbuf₁, hindex, hgraph, h₁⟩
    have hopts : s₁.graph.scaleSwsOpts = s.graph.scaleSwsOpts := by
      rw [hgraph]
      rfl
    cases fuel with
    | zero => exact absurd hfuel (Nat.not_succ_le_zero _)
    | succ fuel =>
      rcases ih h₁ hbuf₁ hc.2 (fun i f' hf' => by
        rw [hopts, hindex, Nat.add_assoc, Nat.add_comm 1 i]
        exact hfits (i + 1) f' hf') fuel (Nat.le_of_succ_le_succ hfuel) with ⟨s', hs', hfinished⟩
      refine ⟨s', ?_, ?_⟩
      · rw [hs₁, Flow.bind_next, Flow.whileLoop_succ hmore]
        exact hs'
      · rw [hgraph, hindex] at hfinished
        rw [Chain.filters, chained_cons]
        exact hfinished

/-- A description is longer than the number of its filters. -/
theorem Chain.length_filters_le (c : Chain) (hnames : ∀ f ∈ c.filters, f.name ≠ []) :
    c.filters.length ≤ (c.print mode).length := by
  have hpos : ∀ {f : Spec} (rest : Text), f.name ≠ [] →
      rest.length + 1 ≤ (f.print mode ++ rest).length := by
    intro f rest hname
    rcases print_head mode hname [] with ⟨c, text, heq, -, -⟩
    rw [List.append_nil] at heq
    rw [heq, List.length_append, List.length_cons]
    omega
  induction c with
  | last f e =>
    have hname := hnames f (by simp [filters])
    exact (Nat.succ_le_succ (Nat.zero_le _)).trans (hpos _ hname)
  | cons f j rest ih =>
    have hrest := ih fun f hf => hnames f (List.mem_cons_of_mem _ hf)
    have hle := hpos (j.print mode ++ (j.entry.print mode ++ rest.print mode))
      (hnames f List.mem_cons_self)
    rw [filters, List.length_cons, print]
    simp only [List.length_append] at hle ⊢
    omega

/-- The parser, from where the first filter is entered. -/
theorem parse_entered (c : Chain) {g : FilterGraph} {openInputs openOutputs : List InOut}
    (h : Entered ⟨e.print mode ++ c.print mode, g, [], openInputs, openOutputs, 0, none⟩ e prev
      sink) (hc : c.Fits)
    (hfits : ∀ (i : ℕ) (f : Spec), c.filters[i]? = some f → f.Fits lib g.scaleSwsOpts i)
    (hflags : ¬ "sws_flags=".toList <+: e.print mode ++ c.print mode) :
    ∃ s', avfilterGraphParsePtr lib g (e.print mode ++ c.print mode) openInputs openOutputs =
        Flow.next s' ∧ Finished (chained g 0 prev sink c.filters) s' := by
  have hfits' : ∀ (i : ℕ) (f : Spec), c.filters[i]? = some f →
      f.Fits lib g.scaleSwsOpts (0 + i) := by
    intro i f hf
    rw [Nat.zero_add]
    exact hfits i f hf
  have hnames : ∀ f ∈ c.filters, f.name ≠ [] := by
    intro f hf
    rcases List.mem_iff_getElem?.1 hf with ⟨i, hi⟩
    exact (hfits i f hi).name
  rw [avfilterGraphParsePtr, parseSwsFlags, if_neg hflags, Flow.bind_next]
  dsimp only
  -- the fuel is counted after the first filter
  have hfuel : ∀ s₁, parseChain lib
      ⟨e.print mode ++ c.print mode, g, [], openInputs, openOutputs, 0, none⟩ = Flow.next s₁ →
      c.filters.length ≤ s₁.buf.length + 2 := by
    intro s₁ hs₁
    cases c with
    | last f e' => exact Nat.succ_le_succ (Nat.zero_le _)
    | cons f j rest =>
      rcases h.step mode (hfits' 0 f rfl) hc.1 rfl with ⟨s₁', hs₁', -, hbuf, -⟩
      rw [hs₁', Flow.next.injEq] at hs₁
      have hle := rest.length_filters_le mode fun f hf => hnames f (List.mem_cons_of_mem _ hf)
      rw [← hs₁, hbuf, Chain.filters, List.length_cons, List.length_append]
      omega
  rcases parse_chain mode c h rfl hc hfits' c.filters.length le_rfl with ⟨s', hs', -⟩
  rcases Flow.bind_eq_next_iff.1 hs' with ⟨s₂, hs₂, -⟩
  rcases Flow.bind_eq_next_iff.1 hs₂ with ⟨s₁, hs₁, -⟩
  have hparse := parse_chain mode c h rfl hc hfits' (s₁.buf.length + 2) (hfuel s₁ hs₁)
  rw [hs₁, Flow.bind_next] at hparse ⊢
  exact hparse

/-- The first filter is entered at the start, or after the label of the source. -/
def Entry.IsFirst : Entry → Prop
  | comma _ => False
  | label l _ _ => l = "in".toList
  | start _ => True

/-- The graph has a source and a sink of pictures, and nothing else is open. -/
structure Ends (g : FilterGraph) (source sink : Pad) : Prop where
  accounts : Accounts g [sink] [source]
  source : g.outputType source = some .video
  sink : g.inputType sink = some .video

theorem Ends.entered {g : FilterGraph} (h : Ends g prev sink) (he : e.IsFirst) (buf : Text) :
    Entered ⟨buf, g, [], [⟨some "out".toList, sink⟩], [⟨some "in".toList, prev⟩], 0, none⟩ e prev
      sink := by
  cases e with
  | comma w => exact he.elim
  | label l w w' =>
    obtain rfl : l = "in".toList := he
    exact ⟨List.cons_ne_nil _ _, rfl, rfl, rfl, h.accounts, h.source, h.sink⟩
  | start w => exact ⟨rfl, rfl, rfl, rfl, h.accounts, h.source, h.sink⟩

/-- A finished graph is valid. -/
theorem Finished.valid {g g' : FilterGraph} {source sink : Pad} {filters : Text}
    (h : Ends g source sink)
    (hs : avfilterGraphParsePtr lib g filters [⟨some "out".toList, sink⟩]
      [⟨some "in".toList, source⟩] = Flow.next s) (hfinished : Finished g' s) :
    s.graph.graphCheckValidity = true := by
  have haccounts : Flow.Holds Parser.Accounts (Fails lib) (avfilterGraphParsePtr lib g filters
      [⟨some "out".toList, sink⟩] [⟨some "in".toList, source⟩]) :=
    parse_accounts (by exact h.accounts) filters
  rw [hs, Flow.holds_next] at haccounts
  rw [haccounts.valid_iff, hfinished.openInputs, hfinished.openOutputs, hfinished.currInputs]
  exact ⟨rfl, rfl⟩

/-- **A description of a chain is read back**: escaped in either mode, joined by commas or by
labels, with any spaces, and with or without the labels of the source and the sink, it gives the
filters in their order, linked from the source to the sink, and nothing is open. -/
theorem avfilterGraphParsePtr_print {g : FilterGraph} {source sink : Pad}
    (h : Ends g source sink) (e : Entry) (he : e.IsFirst) (c : Chain) (hc : c.Fits)
    (hfits : ∀ (i : ℕ) (f : Spec), c.filters[i]? = some f → f.Fits lib g.scaleSwsOpts i)
    (hflags : ¬ "sws_flags=".toList <+: e.print mode ++ c.print mode) :
    ∃ s, avfilterGraphParsePtr lib g (e.print mode ++ c.print mode)
        [⟨some "out".toList, sink⟩] [⟨some "in".toList, source⟩] = Flow.next s ∧
      Finished (chained g 0 source sink c.filters) s ∧ s.graph.graphCheckValidity = true := by
  rcases parse_entered mode c (h.entered he _) hc hfits hflags with ⟨s, hs, hfinished⟩
  exact ⟨s, hs, hfinished, hfinished.valid h hs⟩

end chain

theorem ends_sourceSink : Ends sourceSink ⟨0, 0⟩ ⟨1, 0⟩ := ⟨accounts_sourceSink, rfl, rfl⟩

/-- Three filters, one with a name of its own and an argument that has to be escaped. -/
def threeFilters : Chain :=
  .cons ⟨"crop@a".toList, some "in_w,2".toList⟩ (.comma space noSpace)
    (.cons ⟨"scale".toList, none⟩
      (.label "x".toList space noSpace newline noSpace)
      (.last ⟨"rotate".toList, none⟩ (.bare noSpace)))

theorem avfilterGraphParsePtr_print_three :
    ∃ s, avfilterGraphParsePtr oneVideo sourceSink
        " crop@a=in_w\\,2 ,scale [x];\n[x]rotate".toList
        [⟨some "out".toList, ⟨1, 0⟩⟩] [⟨some "in".toList, ⟨0, 0⟩⟩] = Flow.next s ∧
      Finished (chained sourceSink 0 ⟨0, 0⟩ ⟨1, 0⟩ threeFilters.filters) s ∧
      s.graph.graphCheckValidity = true := by
  have hnames : ∀ f ∈ threeFilters.filters, f.name ≠ [] := by
    simp [threeFilters, Chain.filters]
  have hfits : ∀ (i : ℕ) (f : Spec), threeFilters.filters[i]? = some f →
      f.Fits oneVideo sourceSink.scaleSwsOpts i := by
    intro i f hf
    exact ⟨hnames f (List.mem_of_getElem? hf), rfl, rfl⟩
  exact avfilterGraphParsePtr_print .backslash ends_sourceSink (.start space)
    trivial threeFilters ⟨trivial, ⟨by decide, by decide⟩, trivial⟩ hfits (by decide)

end AudioCrash.Graph
