import AudioCrash.Graph.Parse
import Mathlib.Data.List.Nodup

/-!
# The pads of a parsed graph

Whatever the description is, the parser comes to an end, and when it accepts, every pad of
every filter is in exactly one place: at one end of one link, among the open inputs or outputs,
or in `curr_inputs`, which are freed. So the graph is valid exactly when all three are empty.

## Main definitions

* `Accounts` — where the pads are.
* `Fails` — the codes of the parser.
* `avfilterGraphParsePtr_accounts`, `Accounts.valid_iff` — the graph.
* `avfilterGraphParsePtr_ne_hang` — the end.
-/

namespace AudioCrash.Graph

/-! ## Where the pads are -/

/-- The first `n` pads of a filter. -/
def padsOf (filt n : ℕ) : List Pad := (List.range n).map fun i => ⟨filt, i⟩

/-- The pad that an element of `curr_inputs` has. -/
def Input.pad? : Input → Option Pad
  | label _ => none
  | output p => some p.pad

/-- Every pad is either linked once, to a pad of the same type, or open once. -/
structure Accounts (g : FilterGraph) (openInputs openOutputs : List Pad) : Prop where
  inputs : (g.links.map Link.dst ++ openInputs).Perm g.inputPads
  outputs : (g.links.map Link.src ++ openOutputs).Perm g.outputPads
  types : ∀ l ∈ g.links, ∃ t, g.outputType l.src = some t ∧ g.inputType l.dst = some t

/-- The codes of the parser: `AVERROR(EINVAL)`, and what the initialization of a filter
returns. -/
def Fails (lib : Filters) (code : ℤ) : Prop :=
  code = einval ∨ ∃ name args, lib.initStr name args = .error code

section accounts
variable {lib : Filters} {g g' : FilterGraph} {I I' O O' : List Pad} {filt : ℕ}

theorem Fails.einval (lib : Filters) : Fails lib einval := Or.inl rfl

theorem Accounts.perm (h : Accounts g I O) (hi : I.Perm I') (ho : O.Perm O') :
    Accounts g I' O' where
  inputs := (hi.symm.append_left _).trans h.inputs
  outputs := (ho.symm.append_left _).trans h.outputs
  types := h.types

/-- The first element that satisfies a predicate is taken out of a list. -/
theorem perm_cons_eraseP {α : Type} {p : α → Bool} {l : List α} {a : α}
    (h : l.find? p = some a) : l.Perm (a :: l.eraseP p) := by
  rcases List.find?_eq_some_iff_append.1 h with ⟨ha, before, after, rfl, hbefore⟩
  have hnot : ∀ b ∈ before, ¬ p b = true := fun b hb => by simpa using hbefore b hb
  rw [List.eraseP_append_right _ hnot, List.eraseP_cons_of_pos ha]
  exact List.perm_middle

/-- No pad is listed twice. -/
theorem nodup_flatMap_padsOf (n : ℕ) (count : ℕ → ℕ) :
    ((List.range n).flatMap fun f => padsOf f (count f)).Nodup := by
  refine List.nodup_flatMap.2 ⟨fun f _ => ?_, ?_⟩
  · exact List.nodup_range.map fun i j hij => congrArg Pad.pad hij
  · refine List.nodup_range.pairwise_of_forall_ne fun f _ f' _ hne => ?_
    intro p hp hp'
    rcases List.mem_map.1 hp with ⟨i, _, rfl⟩
    rcases List.mem_map.1 hp' with ⟨j, _, heq⟩
    exact hne (congrArg Pad.filter heq).symm

/-- **Valid graphs** are those without an open pad. -/
theorem Accounts.valid_iff (h : Accounts g I O) :
    g.graphCheckValidity = true ↔ I = [] ∧ O = [] := by
  -- a list of pads that has them all, each once, has no others when all are linked
  have hside : ∀ {linked rest pads : List Pad}, (linked ++ rest).Perm pads → pads.Nodup →
      ((∀ p ∈ pads, p ∈ linked) ↔ rest = []) := by
    intro linked rest pads hperm hnodup
    constructor
    · intro hall
      have hdisjoint := List.disjoint_of_nodup_append (hperm.nodup_iff.2 hnodup)
      refine List.eq_nil_iff_forall_not_mem.2 fun p hp => ?_
      exact hdisjoint (hall p (hperm.mem_iff.1 (List.mem_append_right _ hp))) hp
    · rintro rfl p hp
      rw [List.append_nil] at hperm
      exact hperm.mem_iff.2 hp
  rw [← hside h.inputs (nodup_flatMap_padsOf _ _), ← hside h.outputs (nodup_flatMap_padsOf _ _)]
  simp [FilterGraph.graphCheckValidity]

/-! ## Links and filters -/

theorem avfilterLink_accounts {src dst : Pad} (h : Accounts g (dst :: I) (src :: O)) :
    Flow.Holds (fun g' => Accounts g' I O ∧ g'.filters = g.filters) (Fails lib)
      (avfilterLink g src dst) := by
  simp only [avfilterLink]
  split
  · next t t' hsrc hdst =>
    split_ifs with hlinked htypes
    · exact Fails.einval lib
    · exact Fails.einval lib
    · have htypes : t = t' := not_not.1 htypes
      refine ⟨⟨?inputs, ?outputs, ?types⟩, rfl⟩
      case inputs =>
        rw [List.map_append, List.append_assoc]
        exact h.inputs
      case outputs =>
        rw [List.map_append, List.append_assoc]
        exact h.outputs
      case types =>
        intro l hl
        rcases List.mem_append.1 hl with hl | hl
        · exact h.types l hl
        · rw [List.mem_singleton] at hl
          rw [hl]
          exact ⟨t, hsrc, htypes ▸ hdst⟩
  · exact Fails.einval lib

/-- The filters that there were are where they were. -/
theorem getElem?_concat_filter {f : FilterContext} {i : ℕ} (hi : i < g.filters.length) :
    (g.filters ++ [f])[i]? = g.filters[i]? := List.getElem?_append_left hi

theorem inputType_concat {f : FilterContext} {p : Pad} {t : MediaType}
    (h : g.inputType p = some t) :
    ({ g with filters := g.filters ++ [f] } : FilterGraph).inputType p = some t := by
  rcases Option.bind_eq_some_iff.1 h with ⟨c, hc, -⟩
  rw [FilterGraph.inputType, getElem?_concat_filter (List.getElem?_eq_some_iff.1 hc).1]
  exact h

theorem outputType_concat {f : FilterContext} {p : Pad} {t : MediaType}
    (h : g.outputType p = some t) :
    ({ g with filters := g.filters ++ [f] } : FilterGraph).outputType p = some t := by
  rcases Option.bind_eq_some_iff.1 h with ⟨c, hc, -⟩
  rw [FilterGraph.outputType, getElem?_concat_filter (List.getElem?_eq_some_iff.1 hc).1]
  exact h

/-- A filter is added, and its pads are open. -/
theorem Accounts.concat (h : Accounts g I O) {f : FilterContext}
    (hg : g' = { g with filters := g.filters ++ [f] }) :
    Accounts g' (I ++ padsOf g.filters.length (g'.nbInputs g.filters.length))
      (O ++ padsOf g.filters.length (g'.nbOutputs g.filters.length)) := by
  have hinputs : g'.inputPads =
      g.inputPads ++ padsOf g.filters.length (g'.nbInputs g.filters.length) := by
    rw [FilterGraph.inputPads, hg, List.length_append, List.length_singleton, List.range_succ,
      List.flatMap_append, List.flatMap_singleton]
    congr 1
    refine List.flatMap_congr fun i hi => ?_
    rw [FilterGraph.nbInputs, getElem?_concat_filter (List.mem_range.1 hi)]
    rfl
  have houtputs : g'.outputPads =
      g.outputPads ++ padsOf g.filters.length (g'.nbOutputs g.filters.length) := by
    rw [FilterGraph.outputPads, hg, List.length_append, List.length_singleton, List.range_succ,
      List.flatMap_append, List.flatMap_singleton]
    congr 1
    refine List.flatMap_congr fun i hi => ?_
    rw [FilterGraph.nbOutputs, getElem?_concat_filter (List.mem_range.1 hi)]
    rfl
  have hlinks : g'.links = g.links := by rw [hg]
  refine ⟨?inputs, ?outputs, ?types⟩
  case inputs =>
    rw [hinputs, hlinks, ← List.append_assoc]
    exact h.inputs.append_right _
  case outputs =>
    rw [houtputs, hlinks, ← List.append_assoc]
    exact h.outputs.append_right _
  case types =>
    intro l hl
    rw [hlinks] at hl
    rcases h.types l hl with ⟨t, hout, hin⟩
    rw [hg]
    exact ⟨t, outputType_concat hout, inputType_concat hin⟩

/-- A filter is created, and its pads are open. -/
theorem createFilter_accounts (h : Accounts g I O) (index : ℕ) (name : Text)
    (args : Option Text) :
    Flow.Holds (fun g' =>
        Accounts g' (I ++ padsOf g.filters.length (g'.nbInputs g.filters.length))
          (O ++ padsOf g.filters.length (g'.nbOutputs g.filters.length)))
      (Fails lib) (createFilter lib g index name args) := by
  simp only [createFilter]
  split_ifs
  · split
    · next code hcode => exact Or.inr ⟨_, _, hcode⟩
    · exact h.concat rfl
  · exact Fails.einval lib

theorem parseFilter_accounts (h : Accounts g I O) (buf : Text) (index : ℕ) :
    Flow.Holds (fun r =>
        Accounts r.2 (I ++ padsOf g.filters.length (r.2.nbInputs g.filters.length))
          (O ++ padsOf g.filters.length (r.2.nbOutputs g.filters.length)))
      (Fails lib) (parseFilter lib buf g index) :=
  (createFilter_accounts h _ _ _).bind fun _ hg => hg

/-! ## Labels before a filter -/

/-- The outputs that labels name are taken out of the open ones. -/
theorem parseInput_pads (s : Inputs) :
    Flow.Holds (fun s' =>
        (s'.parsed.filterMap Input.pad? ++ s'.openOutputs.map InOut.pad).Perm
          (s.parsed.filterMap Input.pad? ++ s.openOutputs.map InOut.pad))
      (Fails lib) (parseInput s) := by
  rw [parseInput]
  split
  · exact Fails.einval lib
  · next name buf hname =>
    cases hfind : s.openOutputs.find? (InOut.isNamed name) with
    | some p =>
      have hperm := ((perm_cons_eraseP hfind).map InOut.pad).append_left
        (s.parsed.filterMap Input.pad?)
      rw [Flow.holds_next]
      dsimp only
      rw [List.filterMap_append, List.append_assoc]
      exact hperm.symm
    | none =>
      have hnone : s.openOutputs.eraseP (InOut.isNamed name) = s.openOutputs :=
        List.eraseP_of_forall_not fun p hp => by simpa using List.find?_eq_none.1 hfind p hp
      rw [Flow.holds_next]
      dsimp only
      rw [hnone, List.filterMap_append, List.append_assoc]
      exact List.Perm.refl _

theorem parseInputs_pads (buf : Text) (currInputs openOutputs : List InOut) :
    Flow.Holds (fun s =>
        (s.parsed.filterMap Input.pad? ++ s.openOutputs.map InOut.pad).Perm
          ((openOutputs ++ currInputs).map InOut.pad))
      (Fails lib) (parseInputs buf currInputs openOutputs) := by
  refine Flow.Holds.bind (P := fun s : Inputs =>
    (s.parsed.filterMap Input.pad? ++ s.openOutputs.map InOut.pad).Perm
      (openOutputs.map InOut.pad)) ?_ fun s hs => ?_
  · refine (Flow.holds_whileLoop (fun s : Inputs =>
      (s.parsed.filterMap Input.pad? ++ s.openOutputs.map InOut.pad).Perm
        (openOutputs.map InOut.pad)) _ (List.Perm.refl _) fun s _ hs => ?_).imp_next
      fun s hs => hs.1
    exact (parseInput_pads s).imp_next fun s' hs' => hs'.trans hs
  · have hcurr : (currInputs.map Input.output).filterMap Input.pad? =
        currInputs.map InOut.pad := by
      rw [List.filterMap_map]
      exact congrFun (List.filterMap_eq_map (f := InOut.pad)) currInputs
    simp only [Flow.holds_next, List.filterMap_append, hcurr, List.map_append]
    rw [List.append_assoc]
    refine (List.perm_append_comm.append_left _).trans ?_
    rw [← List.append_assoc]
    exact hs.append_right _

/-! ## The pads of a filter -/

/-- The pads of the filter that are not gone through are open. -/
theorem linkInput_accounts {s : Linking} (pad : ℕ)
    (h : Accounts s.graph (s.openInputs.map InOut.pad ++ ⟨filt, pad⟩ :: I)
      (s.currInputs.filterMap Input.pad? ++ O)) :
    Flow.Holds (fun s' => Accounts s'.graph (s'.openInputs.map InOut.pad ++ I)
        (s'.currInputs.filterMap Input.pad? ++ O) ∧ s'.graph.filters = s.graph.filters)
      (Fails lib) (linkInput filt pad s) := by
  rcases s with ⟨g, currInputs, openInputs⟩
  have hopen : ∀ name : Option Text,
      Accounts g ((openInputs ++ [(⟨name, ⟨filt, pad⟩⟩ : InOut)]).map InOut.pad ++ I)
        (currInputs.filterMap Input.pad? ++ O) := by
    intro name
    rw [List.map_append, List.append_assoc]
    exact h
  cases currInputs with
  | nil => exact ⟨hopen none, rfl⟩
  | cons input currInputs =>
    cases input with
    | label name => exact ⟨hopen (some name), rfl⟩
    | output p =>
      refine (avfilterLink_accounts (h.perm List.perm_middle (List.Perm.refl _))).bind
        fun g' hg' => hg'

theorem linkFilterInouts_accounts {s : Linking}
    (h : Accounts s.graph (s.openInputs.map InOut.pad ++ padsOf filt (s.graph.nbInputs filt))
      (s.currInputs.filterMap Input.pad? ++ O)) :
    Flow.Holds (fun s' => Accounts s'.graph (s'.openInputs.map InOut.pad) O ∧
        s'.graph.filters = s.graph.filters)
      (Fails lib) (linkFilterInouts filt s) := by
  refine Flow.Holds.bind (P := fun s' : Linking => Accounts s'.graph (s'.openInputs.map InOut.pad)
    (s'.currInputs.filterMap Input.pad? ++ O) ∧ s'.graph.filters = s.graph.filters)
    ?loop fun s' hs' => ?rest
  case loop =>
    refine Flow.Holds.imp_next (Flow.holds_forEach
      (fun done (s' : Linking) => ∀ rest, done ++ rest = List.range (s.graph.nbInputs filt) →
        Accounts s'.graph (s'.openInputs.map InOut.pad ++ rest.map fun i => ⟨filt, i⟩)
          (s'.currInputs.filterMap Input.pad? ++ O) ∧ s'.graph.filters = s.graph.filters)
      (List.range (s.graph.nbInputs filt)) (d := []) ?start ?step) fun s' hs' => ?done
    case start =>
      intro rest hrest
      rw [List.nil_append] at hrest
      rw [hrest]
      exact ⟨h, rfl⟩
    case step =>
      intro done pad rest s' hsplit hs'
      rw [List.nil_append] at hsplit
      rcases hs' (pad :: rest) hsplit.symm with ⟨haccounts, hfilters⟩
      refine (linkInput_accounts pad haccounts).imp_next fun s'' hs'' rest' hrest' => ?_
      have hrest : rest' = rest := by
        rw [hsplit, List.append_assoc, List.singleton_append] at hrest'
        exact (List.cons.inj (List.append_cancel_left hrest')).2
      rw [hrest]
      exact ⟨hs''.1, hs''.2.trans hfilters⟩
    case done =>
      have hdone := hs' [] (List.append_nil _)
      rwa [List.map_nil, List.append_nil] at hdone
  case rest =>
    split_ifs with hcurr
    · exact Fails.einval lib
    · rw [not_not.1 hcurr] at hs'
      exact hs'

theorem map_pad_outputsOf (g : FilterGraph) (filt : ℕ) :
    (outputsOf g filt).map InOut.pad = padsOf filt (g.nbOutputs filt) := by
  rw [outputsOf, List.map_map]
  rfl

/-! ## Labels after a filter -/

/-- The parser knows where the pads are. -/
def Parser.Accounts (s : Parser) : Prop :=
  Graph.Accounts s.graph (s.openInputs.map InOut.pad)
    ((s.openOutputs ++ s.currInputs).map InOut.pad)

theorem parseOutput_accounts {s : Parser} (h : s.Accounts) :
    Flow.Holds Parser.Accounts (Fails lib) (parseOutput s) := by
  rcases s with ⟨buf, g, currInputs, openInputs, openOutputs, index, chr⟩
  simp only [parseOutput]
  split
  · next name buf' input currInputs _ =>
    have houtputs : ((openOutputs ++ input :: currInputs).map InOut.pad).Perm
        (input.pad :: (openOutputs ++ currInputs).map InOut.pad) :=
      List.perm_middle.map InOut.pad
    cases hfind : openInputs.find? (InOut.isNamed name) with
    | some p =>
      have hinputs := (perm_cons_eraseP hfind).map InOut.pad
      refine (avfilterLink_accounts (h.perm hinputs houtputs)).bind fun g' hg' => hg'.1
    | none => exact h.perm (List.Perm.refl _) houtputs
  · exact Fails.einval lib

theorem parseOutputs_accounts {s : Parser} (h : s.Accounts) :
    Flow.Holds Parser.Accounts (Fails lib) (parseOutputs s) :=
  (Flow.holds_whileLoop _ _ h fun _ _ hs => parseOutput_accounts hs).imp_next fun _ hs => hs.1

/-! ## The description -/

theorem parseChain_accounts {s : Parser} (h : s.Accounts) :
    Flow.Holds Parser.Accounts (Fails lib) (parseChain lib s) := by
  refine (parseInputs_pads (skipSpaces s.buf) s.currInputs s.openOutputs).bind
    fun inputs hinputs => ?_
  refine (parseFilter_accounts (h.perm (List.Perm.refl _) hinputs.symm) inputs.buf s.index).bind
    fun r hr => ?_
  refine Flow.Holds.bind (P := fun inputs' : Inputs =>
    (inputs'.parsed.filterMap Input.pad? ++ inputs'.openOutputs.map InOut.pad).Perm
      (inputs.parsed.filterMap Input.pad? ++ inputs.openOutputs.map InOut.pad)) ?default
    fun inputs' hinputs' => ?_
  case default =>
    split_ifs with hdefault
    · refine (parseInputs_pads _ [] inputs.openOutputs).imp_next fun inputs' hinputs' => ?_
      rw [hdefault.2.1]
      rwa [List.append_nil] at hinputs'
    · exact List.Perm.refl _
  have hopen : (inputs.parsed.filterMap Input.pad? ++ inputs.openOutputs.map InOut.pad ++
      padsOf s.graph.filters.length (r.2.nbOutputs s.graph.filters.length)).Perm
      (inputs'.parsed.filterMap Input.pad? ++ (inputs'.openOutputs.map InOut.pad ++
        padsOf s.graph.filters.length (r.2.nbOutputs s.graph.filters.length))) := by
    rw [← List.append_assoc]
    exact hinputs'.symm.append_right _
  refine (linkFilterInouts_accounts (s := ⟨r.2, inputs'.parsed, s.openInputs⟩)
    (hr.perm (List.Perm.refl _) hopen)).bind fun l hl => ?_
  have hl' := hl.1
  have hnb : r.2.nbOutputs s.graph.filters.length = l.graph.nbOutputs s.graph.filters.length := by
    rw [FilterGraph.nbOutputs, FilterGraph.nbOutputs, hl.2]
  rw [hnb, ← map_pad_outputsOf, ← List.map_append] at hl'
  refine (parseOutputs_accounts (by exact hl')).bind fun s' hs' => ?_
  simp only [endChain]
  split_ifs
  · exact Fails.einval lib
  · exact hs'

theorem parseEnd_accounts {s : Parser} (h : s.Accounts) :
    Flow.Holds Parser.Accounts (Fails lib) (parseEnd s) := by
  rw [parseEnd]
  split_ifs
  · exact Fails.einval lib
  · exact parseOutputs_accounts h
  · exact h

/-- The flags of the scalers concern no pad. -/
theorem parseSwsFlags_accounts (h : Accounts g I O) (buf : Text) :
    Flow.Holds (fun r => Accounts r.2 I O) (Fails lib) (parseSwsFlags buf g) := by
  rw [parseSwsFlags]
  split_ifs
  · exact ⟨h.inputs, h.outputs, h.types⟩
  · exact Fails.einval lib
  · exact h

end accounts

/-! ## The end -/

section ends
variable {lib : Filters}

theorem length_parseLinkName_lt {buf name rest : Text} (h : parseLinkName buf = some (name, rest)) :
    rest.length < buf.length := by
  simp only [parseLinkName] at h
  split_ifs at h with hname hhead
  rcases h with ⟨rfl, rfl⟩
  have hle := length_getToken_le [']'] buf.tail
  cases htoken : (getToken [']'] buf.tail).2 with
  | nil =>
    rw [htoken] at hhead
    exact absurd hhead (by simp)
  | cons c rest =>
    rw [htoken, List.length_tail] at hle
    rw [List.tail_cons]
    simp only [List.length_cons] at hle
    omega

theorem parseInput_shorter (s : Inputs) :
    Flow.Holds (fun s' => s'.buf.length < s.buf.length) (fun _ => True) (parseInput s) := by
  rw [parseInput]
  split
  · trivial
  · next name buf hname =>
    exact lt_of_le_of_lt (length_skipSpaces_le buf) (length_parseLinkName_lt hname)

theorem parseInputs_shorter (buf : Text) (currInputs openOutputs : List InOut) :
    Flow.Holds (fun s => s.buf.length ≤ buf.length) (fun _ => True)
      (parseInputs buf currInputs openOutputs) := by
  refine Flow.Holds.bind (P := fun s : Inputs => s.buf.length ≤ buf.length) ?_ fun s hs => hs
  refine (Flow.holds_whileLoop (fun s : Inputs => s.buf.length ≤ buf.length) _ le_rfl
    fun s _ hs => ?_).imp_next fun s hs => hs.1
  exact (parseInput_shorter s).imp_next fun s' hs' => hs'.le.trans hs

theorem parseInputs_ne_hang (buf : Text) (currInputs openOutputs : List InOut) :
    parseInputs buf currInputs openOutputs ≠ Flow.hang := by
  refine Flow.bind_ne_hang (Flow.whileLoop_ne_hang (fun s : Inputs => s.buf.length)
    (fun s _ => ?_) (fun s s' _ hs => ?_) _ _ (Nat.lt_succ_self _)) fun _ _ =>
    Flow.next_ne_hang _
  · rw [parseInput]
    split
    · exact Flow.ret_ne_hang _
    · exact Flow.next_ne_hang _
  · have hshorter := parseInput_shorter s
    rwa [hs] at hshorter

theorem parseFilter_shorter (buf : Text) (g : FilterGraph) (index : ℕ) :
    Flow.Holds (fun r => r.1.length ≤ buf.length) (fun _ => True)
      (parseFilter lib buf g index) := by
  simp only [parseFilter]
  have hname := length_getToken_le "=,;[".toList buf
  refine Flow.Holds.bind (P := fun _ => True) ?_ fun g _ => ?_
  · cases createFilter lib g index _ _ <;> trivial
  · split_ifs
    · have hopts := length_getToken_le "[],;".toList (getToken "=,;[".toList buf).2.tail
      rw [List.length_tail] at hopts
      exact hopts.trans ((Nat.sub_le _ _).trans hname)
    · exact hname

theorem avfilterLink_ne_hang (g : FilterGraph) (src dst : Pad) :
    avfilterLink g src dst ≠ Flow.hang := by
  simp only [avfilterLink]
  split
  · split_ifs
    · exact Flow.ret_ne_hang _
    · exact Flow.ret_ne_hang _
    · exact Flow.next_ne_hang _
  · exact Flow.ret_ne_hang _

theorem parseFilter_ne_hang (buf : Text) (g : FilterGraph) (index : ℕ) :
    parseFilter lib buf g index ≠ Flow.hang := by
  refine Flow.bind_ne_hang ?_ fun _ _ => Flow.next_ne_hang _
  simp only [createFilter]
  split_ifs
  · split
    · exact Flow.ret_ne_hang _
    · exact Flow.next_ne_hang _
  · exact Flow.ret_ne_hang _

theorem linkFilterInouts_ne_hang (filt : ℕ) (s : Linking) :
    linkFilterInouts filt s ≠ Flow.hang := by
  refine Flow.bind_ne_hang (Flow.forEach_ne_hang _ s fun pad s => ?_) fun s _ => ?_
  · rw [linkInput]
    split
    · exact Flow.bind_ne_hang (avfilterLink_ne_hang _ _ _) fun _ _ => Flow.next_ne_hang _
    · exact Flow.next_ne_hang _
    · exact Flow.next_ne_hang _
  · split_ifs
    · exact Flow.ret_ne_hang _
    · exact Flow.next_ne_hang _

theorem parseOutput_shorter (s : Parser) :
    Flow.Holds (fun s' => s'.buf.length < s.buf.length) (fun _ => True) (parseOutput s) := by
  rw [parseOutput]
  split
  · next name buf input currInputs hname _ =>
    have hlt := lt_of_le_of_lt (length_skipSpaces_le buf) (length_parseLinkName_lt hname)
    split
    · refine Flow.Holds.bind (P := fun _ => True) ?_ fun g _ => hlt
      cases avfilterLink s.graph input.pad _ <;> trivial
    · exact hlt
  · trivial

theorem parseOutputs_shorter (s : Parser) :
    Flow.Holds (fun s' => s'.buf.length ≤ s.buf.length) (fun _ => True) (parseOutputs s) := by
  refine (Flow.holds_whileLoop (fun s' : Parser => s'.buf.length ≤ s.buf.length) _ le_rfl
    fun s' _ hs' => ?_).imp_next fun s hs => hs.1
  exact (parseOutput_shorter s').imp_next fun s'' hs'' => hs''.le.trans hs'

theorem parseOutputs_ne_hang (s : Parser) : parseOutputs s ≠ Flow.hang := by
  refine Flow.whileLoop_ne_hang (fun s : Parser => s.buf.length) (fun s _ => ?_)
    (fun s s' _ hs => ?_) _ _ (Nat.lt_succ_self _)
  · rw [parseOutput]
    split
    · split
      · exact Flow.bind_ne_hang (avfilterLink_ne_hang _ _ _) fun _ _ => Flow.next_ne_hang _
      · exact Flow.next_ne_hang _
    · exact Flow.ret_ne_hang _
  · have hshorter := parseOutput_shorter s
    rwa [hs] at hshorter

/-- What keeps the loop going has been taken out of the description. -/
theorem parseChain_shorter (s : Parser) :
    Flow.Holds (fun s' => s'.more = true → s'.buf.length < s.buf.length) (fun _ => True)
      (parseChain lib s) := by
  refine (parseInputs_shorter (skipSpaces s.buf) s.currInputs s.openOutputs).bind
    fun inputs hinputs => (parseFilter_shorter inputs.buf s.graph s.index).bind fun r hr => ?_
  refine Flow.Holds.bind (P := fun _ => True) ?_ fun inputs' _ =>
    Flow.Holds.bind (P := fun _ => True) ?_ fun l _ =>
    (parseOutputs_shorter _).bind fun s' hs' => ?_
  · cases (if r.2.nbInputs s.graph.filters.length = 1 ∧ inputs.parsed = [] ∧ s.index = 0 then
      parseInputs "[in]".toList [] inputs.openOutputs else Flow.next inputs) <;> trivial
  · cases linkFilterInouts s.graph.filters.length ⟨r.2, inputs'.parsed, s.openInputs⟩ <;> trivial
  · simp only [endChain]
    split_ifs
    · trivial
    · intro hmore
      have hle := (length_skipSpaces_le s'.buf).trans (hs'.trans (hr.trans (hinputs.trans
        (length_skipSpaces_le s.buf))))
      dsimp only
      cases hbuf : skipSpaces s'.buf with
      | nil =>
        simp only [Parser.more, hbuf, List.head?_nil] at hmore
        exact absurd hmore (by decide)
      | cons c rest =>
        rw [hbuf, List.length_cons] at hle
        rw [List.tail_cons]
        omega

theorem parseChain_ne_hang (s : Parser) : parseChain lib s ≠ Flow.hang := by
  refine Flow.bind_ne_hang (parseInputs_ne_hang _ _ _) fun inputs _ =>
    Flow.bind_ne_hang (parseFilter_ne_hang _ _ _) fun r _ =>
    Flow.bind_ne_hang ?_ fun inputs' _ =>
    Flow.bind_ne_hang (linkFilterInouts_ne_hang _ _) fun l _ =>
    Flow.bind_ne_hang (parseOutputs_ne_hang _) fun s' _ => ?_
  · split_ifs
    · exact parseInputs_ne_hang _ _ _
    · exact Flow.next_ne_hang _
  · simp only [endChain]
    split_ifs
    · exact Flow.ret_ne_hang _
    · exact Flow.next_ne_hang _

/-- **The parser comes to an end.** -/
theorem avfilterGraphParsePtr_ne_hang (g : FilterGraph) (filters : Text)
    (openInputs openOutputs : List InOut) :
    avfilterGraphParsePtr lib g filters openInputs openOutputs ≠ Flow.hang := by
  refine Flow.bind_ne_hang ?flags fun r _ => Flow.bind_ne_hang (parseChain_ne_hang _) fun s _ =>
    Flow.bind_ne_hang (Flow.whileLoop_ne_hang
      (fun s : Parser => if s.more then s.buf.length + 1 else 0)
      (fun s _ => parseChain_ne_hang s) (fun s s' hmore hs => ?decreases) _ s ?fuel)
      fun s _ => ?rest
  case flags =>
    rw [parseSwsFlags]
    split_ifs
    · exact Flow.next_ne_hang _
    · exact Flow.ret_ne_hang _
    · exact Flow.next_ne_hang _
  case decreases =>
    have hshorter : Flow.Holds _ _ (parseChain lib s) := parseChain_shorter s
    rw [hs, Flow.holds_next] at hshorter
    rw [if_pos hmore]
    split_ifs with hmore'
    · exact Nat.succ_lt_succ (hshorter hmore')
    · exact Nat.succ_pos _
  case fuel =>
    split_ifs
    · exact Nat.lt_succ_self _
    · exact Nat.succ_pos _
  case rest =>
    rw [parseEnd]
    split_ifs
    · exact Flow.ret_ne_hang _
    · exact parseOutputs_ne_hang _
    · exact Flow.next_ne_hang _

/-- The parser knows where the pads are when it accepts. -/
theorem parse_accounts {g : FilterGraph} {openInputs openOutputs : List InOut}
    (h : Accounts g (openInputs.map InOut.pad) (openOutputs.map InOut.pad)) (filters : Text) :
    Flow.Holds Parser.Accounts (Fails lib)
      (avfilterGraphParsePtr lib g filters openInputs openOutputs) := by
  refine (parseSwsFlags_accounts h filters).bind fun r hr => ?_
  have hstart : Parser.Accounts ⟨r.1, r.2, [], openInputs, openOutputs, 0, none⟩ := by
    rw [Parser.Accounts, List.append_nil]
    exact hr
  refine (parseChain_accounts hstart).bind fun s hs => ?_
  exact (Flow.holds_whileLoop Parser.Accounts _ hs fun s _ hs => parseChain_accounts hs).bind
    fun s hs => parseEnd_accounts hs.1

/-- **Every pad of an accepted graph is in one place**, for any description: linked once, to a
pad of its type, or open once, or dropped. So the graph is valid exactly when nothing is open or
dropped. What is not accepted is so with the code for invalid arguments, or with the one that a
filter returns. -/
theorem avfilterGraphParsePtr_accounts {g : FilterGraph} {openInputs openOutputs : List InOut}
    (h : Accounts g (openInputs.map InOut.pad) (openOutputs.map InOut.pad)) (filters : Text) :
    avfilterGraphParsePtr lib g filters openInputs openOutputs ≠ Flow.hang ∧
      Flow.Holds (fun s => s.Accounts ∧ (s.graph.graphCheckValidity = true ↔
          s.openInputs = [] ∧ s.openOutputs = [] ∧ s.currInputs = []))
        (Fails lib) (avfilterGraphParsePtr lib g filters openInputs openOutputs) := by
  refine ⟨avfilterGraphParsePtr_ne_hang g filters openInputs openOutputs, ?_⟩
  refine (parse_accounts h filters).imp_next fun s hs => ⟨hs, ?_⟩
  rw [hs.valid_iff]
  simp only [List.map_eq_nil_iff, List.append_eq_nil_iff]

end ends

/-- Filters with one input and one output. -/
def oneVideo : Filters := ⟨fun _ => true, fun _ _ => .ok ([.video], [.video])⟩

/-- The source and the sink of `make_flt`. -/
def sourceSink : FilterGraph where
  filters := [⟨"in".toList, "buffer".toList, none, [], [.video]⟩,
    ⟨"out".toList, "buffersink".toList, none, [.video], []⟩]
  links := []
  scaleSwsOpts := none

theorem accounts_sourceSink : Accounts sourceSink [⟨1, 0⟩] [⟨0, 0⟩] :=
  ⟨List.Perm.refl _, List.Perm.refl _, fun _ hl => absurd hl List.not_mem_nil⟩

/-- A label that is not met again stays open. -/
theorem avfilterGraphParsePtr_accounts_label :
    ∃ s, avfilterGraphParsePtr oneVideo sourceSink "[in] scale=2:2 [x]".toList
        [⟨some "out".toList, ⟨1, 0⟩⟩] [⟨some "in".toList, ⟨0, 0⟩⟩] = Flow.next s ∧
      s.openOutputs = [⟨some "x".toList, ⟨2, 0⟩⟩] ∧ s.graph.graphCheckValidity ≠ true := by
  have hparse := (@avfilterGraphParsePtr_accounts oneVideo sourceSink
    [⟨some "out".toList, ⟨1, 0⟩⟩] [⟨some "in".toList, ⟨0, 0⟩⟩] accounts_sourceSink
    "[in] scale=2:2 [x]".toList).2
  have hrun : ∃ s, avfilterGraphParsePtr oneVideo sourceSink "[in] scale=2:2 [x]".toList
        [⟨some "out".toList, ⟨1, 0⟩⟩] [⟨some "in".toList, ⟨0, 0⟩⟩] = Flow.next s ∧
      s.openOutputs = [⟨some "x".toList, ⟨2, 0⟩⟩] := ⟨_, rfl, rfl⟩
  rcases hrun with ⟨s, hs, hopen⟩
  rw [hs, Flow.holds_next, hopen] at hparse
  exact ⟨s, hs, hopen, fun hvalid => absurd (hparse.2.1 hvalid).2.1 (List.cons_ne_nil _ _)⟩

end AudioCrash.Graph
