import AudioCrash.Graph.Token
import AudioCrash.Lib.Loop
import Mathlib.Data.List.Infix

/-!
# The description of a filter graph

`VideoThubmnail::make_flt` hands the description that `make_dump_flt` has put together to
`avfilter_graph_parse_ptr`, which creates the filters one after the other and links their pads:
those of a chain in their order, and others by labels. A pad whose label has not been met yet
waits in the list of the open inputs or outputs; so do the source and the sink of the graph,
under the labels `in` and `out`.

The filters are a parameter: which there are, and which pads an instance has. Allocations do
not fail.

## Main definitions

* `FilterContext`, `FilterGraph`, `InOut` — the data.
* `avfilterLink`, `createFilter` — links and filters.
* `parseInputs`, `parseFilter`, `linkFilterInouts`, `parseOutputs` — the parts of a chain.
* `avfilterGraphParsePtr`, `graphCheckValidity`, `makeFlt`.
-/

namespace AudioCrash.Graph

/-! ## The graph -/

/-- `AVMediaType`, of a pad. -/
inductive MediaType where
  | video | audio
  deriving DecidableEq, Repr

/-- `AVFilterContext`: the name of the instance, the one of the filter, what it has been
initialized with, and its pads. -/
structure FilterContext where
  name : Text
  filter : Text
  args : Option Text
  inputs : List MediaType
  outputs : List MediaType
  deriving DecidableEq, Repr

/-- A pad, by the place of the filter in the graph and its own. -/
structure Pad where
  filter : ℕ
  pad : ℕ
  deriving DecidableEq, Repr

/-- `AVFilterLink`. -/
structure Link where
  src : Pad
  dst : Pad
  deriving DecidableEq, Repr

/-- `AVFilterGraph`. -/
structure FilterGraph where
  filters : List FilterContext
  links : List Link
  scaleSwsOpts : Option Text
  deriving DecidableEq, Repr

/-- `AVFilterInOut` with a filter. -/
structure InOut where
  name : Option Text
  pad : Pad
  deriving DecidableEq, Repr

/-- An element of `curr_inputs` while the labels before a filter are parsed: a label that no
output has, which has no filter yet, or an output. -/
inductive Input where
  | label (name : Text)
  | output (p : InOut)
  deriving DecidableEq, Repr

/-- The filters: whether there is one of a name, and what `avfilter_init_str` makes of an
instance, which is its input and output pads or a negative code. -/
structure Filters where
  getByName : Text → Bool
  initStr : Text → Option Text → Except ℤ (List MediaType × List MediaType)

/-- `AVERROR(EINVAL)`. -/
def einval : ℤ := -22

namespace FilterGraph
variable (g : FilterGraph)

/-- The type of an input pad, if there is one. -/
def inputType (p : Pad) : Option MediaType := (g.filters[p.filter]?).bind (·.inputs[p.pad]?)

/-- The type of an output pad, if there is one. -/
def outputType (p : Pad) : Option MediaType := (g.filters[p.filter]?).bind (·.outputs[p.pad]?)

end FilterGraph

/-- `avfilter_link`. -/
def avfilterLink (g : FilterGraph) (src dst : Pad) : Flow ℤ FilterGraph :=
  match g.outputType src, g.inputType dst with
  | some t, some t' =>
    if (g.links.any fun l => l.src = src) || (g.links.any fun l => l.dst = dst) then
      Flow.ret einval
    else if t ≠ t' then Flow.ret einval
    else Flow.next { g with links := g.links ++ [⟨src, dst⟩] }
  | _, _ => Flow.ret einval

/-- Where `create_filter` finds the instance in `FILTER@ID`: the place of the `@`. -/
def atSign (name : Text) : Option ℕ :=
  (List.range (min name.length 29)).find? fun k => name[k]? == some '@' && k + 1 < name.length

/-- The names of the filter and of the instance. -/
def filterNames (name : Text) (index : ℕ) : Text × Text :=
  match atSign name with
  | some k => (name.take k, name)
  | none => (name, ("Parsed_".toList ++ name ++ '_' :: (toString index).toList).take 29)

/-- The arguments, with the options for all scalers. -/
def scaleArgs (scaleSwsOpts : Option Text) (filtName : Text) (args : Option Text) : Option Text :=
  if filtName = "scale".toList ∧ ¬ (∃ a ∈ args, "flags".toList <:+: a) then
    match scaleSwsOpts with
    | some opts => some (args.elim opts fun a => a ++ ':' :: opts)
    | none => args
  else args

/-- `create_filter`. -/
def createFilter (lib : Filters) (g : FilterGraph) (index : ℕ) (name : Text)
    (args : Option Text) : Flow ℤ FilterGraph :=
  let (filtName, instName) := filterNames name index
  let args := scaleArgs g.scaleSwsOpts filtName args
  if lib.getByName filtName then
    match lib.initStr filtName args with
    | .error code => Flow.ret code
    | .ok (inputs, outputs) =>
      Flow.next { g with filters := g.filters ++ [⟨instName, filtName, args, inputs, outputs⟩] }
  else Flow.ret einval

/-! ## The parts of a chain -/

/-- `parse_link_name`, from the bracket on: the name, and what is left. -/
def parseLinkName (buf : Text) : Option (Text × Text) :=
  let (name, rest) := getToken [']'] buf.tail
  if name = [] then none
  else if rest.head? = some ']' then some (name, rest.tail)
  else none

/-- The first element of this name is the one that `extract_inout` takes out. -/
def InOut.isNamed (label : Text) (p : InOut) : Bool := p.name == some label

/-- The variables of `parse_inputs`. -/
structure Inputs where
  buf : Text
  parsed : List Input
  openOutputs : List InOut

/-- `**buf == '['`. -/
def Inputs.atLabel (s : Inputs) : Bool := s.buf.head? == some '['

/-- One iteration of the loop of `parse_inputs`. -/
def parseInput (s : Inputs) : Flow ℤ Inputs :=
  match parseLinkName s.buf with
  | none => Flow.ret einval
  | some (name, buf) =>
    let input := match s.openOutputs.find? (InOut.isNamed name) with
      | some p => Input.output p
      | none => Input.label name
    Flow.next ⟨skipSpaces buf, s.parsed ++ [input], s.openOutputs.eraseP (InOut.isNamed name)⟩

/-- `parse_inputs`. Every iteration takes a character out of the description, so that the fuel
is enough. -/
def parseInputs (buf : Text) (currInputs openOutputs : List InOut) : Flow ℤ Inputs :=
  (Flow.whileLoop Inputs.atLabel parseInput (buf.length + 1) ⟨buf, [], openOutputs⟩).bind fun s =>
  Flow.next { s with parsed := s.parsed ++ currInputs.map Input.output }

/-- `parse_filter`: what is left, and the graph with the filter. -/
def parseFilter (lib : Filters) (buf : Text) (g : FilterGraph) (index : ℕ) :
    Flow ℤ (Text × FilterGraph) :=
  let (name, buf) := getToken "=,;[".toList buf
  let (opts, buf) :=
    if buf.head? = some '=' then
      let (opts, buf) := getToken "[],;".toList buf.tail
      (some opts, buf)
    else (none, buf)
  (createFilter lib g index name opts).bind fun g => Flow.next (buf, g)

/-- The variables of `link_filter_inouts`. -/
structure Linking where
  graph : FilterGraph
  currInputs : List Input
  openInputs : List InOut

/-- One iteration of the loop over the input pads. -/
def linkInput (filt : ℕ) (pad : ℕ) (s : Linking) : Flow ℤ Linking :=
  match s.currInputs with
  | .output p :: currInputs =>
    (avfilterLink s.graph p.pad ⟨filt, pad⟩).bind fun g =>
    Flow.next { s with graph := g, currInputs := currInputs }
  | .label name :: currInputs =>
    Flow.next { s with
      currInputs := currInputs
      openInputs := s.openInputs ++ [⟨some name, ⟨filt, pad⟩⟩] }
  | [] => Flow.next { s with openInputs := s.openInputs ++ [⟨none, ⟨filt, pad⟩⟩] }

/-- The input pads of a filter. -/
def FilterGraph.nbInputs (g : FilterGraph) (filt : ℕ) : ℕ :=
  ((g.filters[filt]?).map fun f => f.inputs.length).getD 0

/-- The output pads of a filter. -/
def FilterGraph.nbOutputs (g : FilterGraph) (filt : ℕ) : ℕ :=
  ((g.filters[filt]?).map fun f => f.outputs.length).getD 0

/-- `link_filter_inouts` up to the outputs: the input pads are linked or stay open. -/
def linkFilterInouts (filt : ℕ) (s : Linking) : Flow ℤ Linking :=
  (Flow.forEach (linkInput filt) (List.range (s.graph.nbInputs filt)) s).bind fun s =>
  if s.currInputs ≠ [] then Flow.ret einval else Flow.next s

/-- What `link_filter_inouts` leaves in `curr_inputs`: the output pads. -/
def outputsOf (g : FilterGraph) (filt : ℕ) : List InOut :=
  (List.range (g.nbOutputs filt)).map fun pad => ⟨none, ⟨filt, pad⟩⟩

/-- The variables of `avfilter_graph_parse_ptr`. -/
structure Parser where
  buf : Text
  graph : FilterGraph
  currInputs : List InOut
  openInputs : List InOut
  openOutputs : List InOut
  index : ℕ
  chr : Option Char

/-- `**buf == '['`. -/
def Parser.atLabel (s : Parser) : Bool := s.buf.head? == some '['

/-- One iteration of the loop of `parse_outputs`. -/
def parseOutput (s : Parser) : Flow ℤ Parser :=
  match parseLinkName s.buf, s.currInputs with
  | some (name, buf), input :: currInputs =>
    match s.openInputs.find? (InOut.isNamed name) with
    | some p =>
      (avfilterLink s.graph input.pad p.pad).bind fun g =>
      Flow.next { s with
        buf := skipSpaces buf
        graph := g
        currInputs := currInputs
        openInputs := s.openInputs.eraseP (InOut.isNamed name) }
    | none =>
      Flow.next { s with
        buf := skipSpaces buf
        currInputs := currInputs
        openOutputs := ⟨some name, input.pad⟩ :: s.openOutputs }
  | _, _ => Flow.ret einval

/-- `parse_outputs`. -/
def parseOutputs (s : Parser) : Flow ℤ Parser :=
  Flow.whileLoop Parser.atLabel parseOutput (s.buf.length + 1) s

/-! ## The description -/

/-- `parse_sws_flags`. -/
def parseSwsFlags (buf : Text) (g : FilterGraph) : Flow ℤ (Text × FilterGraph) :=
  if "sws_flags=".toList <+: buf then
    if ';' ∈ buf then
      let opts := (buf.drop 4).takeWhile (· != ';')
      Flow.next ((buf.dropWhile (· != ';')).tail, { g with scaleSwsOpts := some opts })
    else Flow.ret einval
  else Flow.next (buf, g)

/-- The end of an iteration of the loop of `avfilter_graph_parse_ptr`. -/
def endChain (s : Parser) : Flow ℤ Parser :=
  let buf := skipSpaces s.buf
  if buf.head? = some ';' ∧ s.currInputs ≠ [] then Flow.ret einval
  else Flow.next { s with buf := buf.tail, chr := buf.head?, index := s.index + 1 }

/-- One iteration of the loop of `avfilter_graph_parse_ptr`. -/
def parseChain (lib : Filters) (s : Parser) : Flow ℤ Parser :=
  (parseInputs (skipSpaces s.buf) s.currInputs s.openOutputs).bind fun inputs =>
  (parseFilter lib inputs.buf s.graph s.index).bind fun (buf, graph) =>
  let filt := s.graph.filters.length
  -- the first input pad is taken for `[in]` when no label is given
  (if graph.nbInputs filt = 1 ∧ inputs.parsed = [] ∧ s.index = 0 then
      parseInputs "[in]".toList [] inputs.openOutputs
    else Flow.next inputs).bind fun inputs =>
  (linkFilterInouts filt ⟨graph, inputs.parsed, s.openInputs⟩).bind fun l =>
  (parseOutputs { s with
    buf := buf
    graph := l.graph
    currInputs := outputsOf l.graph filt
    openInputs := l.openInputs
    openOutputs := inputs.openOutputs }).bind endChain

/-- The loop goes on. -/
def Parser.more (s : Parser) : Bool := s.chr == some ',' || s.chr == some ';'

/-- The end of `avfilter_graph_parse_ptr`: the last output pad is taken for `[out]` when no
label is given. -/
def parseEnd (s : Parser) : Flow ℤ Parser :=
  if s.chr ≠ none then Flow.ret einval
  else if s.currInputs ≠ [] then parseOutputs { s with buf := "[out]".toList }
  else Flow.next s

/-- `avfilter_graph_parse_ptr`. After an error the graph is emptied; what is left in
`curr_inputs` is freed. -/
def avfilterGraphParsePtr (lib : Filters) (g : FilterGraph) (filters : Text)
    (openInputs openOutputs : List InOut) : Flow ℤ Parser :=
  (parseSwsFlags filters g).bind fun (buf, g) =>
  (parseChain lib ⟨buf, g, [], openInputs, openOutputs, 0, none⟩).bind fun s =>
  (Flow.whileLoop Parser.more (parseChain lib) (s.buf.length + 2) s).bind parseEnd

namespace FilterGraph
variable (g : FilterGraph)

/-- The input pads of all filters. -/
def inputPads : List Pad :=
  (List.range g.filters.length).flatMap fun f => (List.range (g.nbInputs f)).map fun i => ⟨f, i⟩

/-- The output pads of all filters. -/
def outputPads : List Pad :=
  (List.range g.filters.length).flatMap fun f => (List.range (g.nbOutputs f)).map fun i => ⟨f, i⟩

/-- `graph_check_validity` succeeds. -/
def graphCheckValidity : Bool :=
  (g.inputPads.all fun p => g.links.any fun l => l.dst = p) &&
    g.outputPads.all fun p => g.links.any fun l => l.src = p

end FilterGraph

/-- `make_flt`, for the arguments of the source; `configOk` is the rest of
`avfilter_graph_config`. -/
def makeFlt (lib : Filters) (configOk : FilterGraph → Bool) (args desc : Text) :
    Flow ℤ FilterGraph :=
  match lib.getByName "buffer".toList, lib.initStr "buffer".toList (some args) with
  | true, .ok (inputs, outputs) =>
    let source : FilterContext := ⟨"in".toList, "buffer".toList, some args, inputs, outputs⟩
    match lib.getByName "buffersink".toList, lib.initStr "buffersink".toList none with
    | true, .ok (inputs, outputs) =>
      let sink : FilterContext := ⟨"out".toList, "buffersink".toList, none, inputs, outputs⟩
      match avfilterGraphParsePtr lib ⟨[source, sink], [], none⟩ desc
          [⟨some "out".toList, ⟨1, 0⟩⟩] [⟨some "in".toList, ⟨0, 0⟩⟩] with
      | .next s =>
        if s.graph.graphCheckValidity && configOk s.graph then Flow.next s.graph
        else Flow.ret (-20400)
      | .ret _ => Flow.ret (-20300)
      | .hang => Flow.hang
    | _, _ => Flow.ret (-20200)
  | _, _ => Flow.ret (-20100)

end AudioCrash.Graph
