import AudioCrash.Graph.Chain
import AudioCrash.Video.Rotation

/-!
# The graph of a thumbnail

Whatever the angle and the width are, the description that `make_dump_flt` puts together is one
of a chain, so that `make_flt` builds the graph that is meant: the source, the filter that turns
the picture, the scaler if there is a width, and the sink.

## Main definitions

* `rotateSpec`, `scaleSpec`, `dumpFilters` — the filters.
* `dumpChain`, `makeDumpFlt_eq_print` — the description.
* `makeFlt_makeDumpFlt` — the graph.
-/

namespace AudioCrash.Graph

/-! ## The filters -/

/-- The filter that turns the picture. -/
def rotateSpec (rotate : ℤ) : Spec :=
  if rotate = 90 then ⟨"transpose".toList, some "1".toList⟩
  else if rotate = 180 then
    ⟨"rotate".toList, some "3.14159265358979323846264338327950288".toList⟩
  else if rotate = 270 then ⟨"transpose".toList, some "2".toList⟩
  else ⟨"rotate".toList, some "0".toList⟩

/-- The filter that scales the picture. -/
def scaleSpec (width : ℤ) : Spec :=
  ⟨"scale".toList, some ((toString width).toList ++ ':' :: (toString width).toList ++ "/a".toList)⟩

/-- The filters of a thumbnail. -/
def dumpFilters (rotate width : ℤ) : List Spec :=
  if 0 < width then [rotateSpec rotate, scaleSpec width] else [rotateSpec rotate]

/-- The chain of these filters. -/
def dumpChain (rotate width : ℤ) : Chain :=
  let sink : End := .label space noSpace
  if 0 < width then
    .cons (rotateSpec rotate)
      (.label "inter".toList space noSpace space ⟨"  ".toList, List.all_eq_true.1 rfl⟩)
      (.last (scaleSpec width) sink)
  else .last (rotateSpec rotate) sink

theorem filters_dumpChain (rotate width : ℤ) :
    (dumpChain rotate width).filters = dumpFilters rotate width := by
  rw [dumpChain, dumpFilters]
  split_ifs
  · rfl
  · rfl

/-! ## The description -/

/-- What has no meaning is not escaped. -/
theorem literal_eq_self {special s : Text}
    (h : ∀ c ∈ s, c ∉ special ∧ c ≠ quote ∧ c ≠ backslash ∧ isSpace c = false) :
    literal .backslash special s = s := by
  have hloop : ∀ isFirst, escapeFrom special ⟨false, false⟩ isFirst s = s := by
    induction s with
    | nil => exact fun _ => rfl
    | cons c s ih =>
      intro isFirst
      rcases h c List.mem_cons_self with ⟨hmem, hquote, hbackslash, hspace⟩
      have hplain : escapes special ⟨false, false⟩ (isFirst || s.isEmpty) c = false := by
        simp [escapes, hmem, hquote, hbackslash, hspace]
      rw [escapeFrom, hplain, if_neg Bool.false_ne_true,
        ih (fun c' hc' => h c' (List.mem_cons_of_mem c hc')), List.singleton_append]
  exact hloop true

theorem print_rotateSpec (rotate : ℤ) :
    (rotateSpec rotate).print .backslash = (Video.rotateDesc rotate).toList := by
  rw [rotateSpec, Video.rotateDesc]
  split_ifs
  · decide
  · decide
  · decide
  · decide

/-- A positive number has digits only. -/
theorem isDigit_of_mem_toString {width : ℤ} (h : 0 < width) {c : Char}
    (hc : c ∈ (toString width).toList) : c.isDigit = true := by
  rw [Int.toString_eq_repr, Int.repr_eq_if, if_pos h.le, Nat.repr_eq_ofList_toDigits,
    String.toList_ofList] at hc
  exact Nat.isDigit_of_mem_toDigits (by decide) (by decide) hc

/-- The size of the scaler has no character with a meaning. -/
theorem scaleSpec_literal {width : ℤ} (h : 0 < width) :
    ∀ c ∈ (toString width).toList ++ ':' :: (toString width).toList ++ "/a".toList,
      c ∉ "[],;".toList ∧ c ≠ quote ∧ c ≠ backslash ∧ isSpace c = false := by
  have hdigit : ∀ c : Char, c.isDigit = true →
      c ∉ "[],;".toList ∧ c ≠ quote ∧ c ≠ backslash ∧ isSpace c = false := by
    intro c hc
    have hne : ∀ d : Char, d.isDigit = false → c ≠ d := by
      rintro d hd rfl
      rw [hd] at hc
      exact Bool.false_ne_true hc
    refine ⟨?_, hne _ rfl, hne _ rfl, ?_⟩
    · intro hmem
      have hd : ∀ d ∈ "[],;".toList, d.isDigit = false := by simp
      exact hne c (hd c hmem) rfl
    · rw [← Bool.not_eq_true]
      intro hspace
      have hd : ∀ d ∈ whitespaces, d.isDigit = false := by simp [whitespaces]
      exact hne c (hd c (List.contains_iff_mem.1 hspace)) rfl
  intro c hc
  simp only [List.mem_append, List.mem_cons] at hc
  rcases hc with (hc | rfl | hc) | hc
  · exact hdigit c (isDigit_of_mem_toString h hc)
  · decide
  · exact hdigit c (isDigit_of_mem_toString h hc)
  · revert c
    simp [isSpace, whitespaces, quote, backslash]

theorem print_scaleSpec {width : ℤ} (h : 0 < width) :
    (scaleSpec width).print .backslash =
      ("scale=" ++ toString width ++ ":" ++ toString width ++ "/a").toList := by
  have hname : literal .backslash "=,;[".toList "scale".toList = "scale".toList := by decide
  have hargs := literal_eq_self (scaleSpec_literal h)
  rw [Spec.print, scaleSpec, hname, Option.elim_some, hargs]
  simp only [String.toList_append, List.append_assoc]
  rfl

/-- **The description is one of a chain.** -/
theorem makeDumpFlt_eq_print {rotate width : ℤ} {desc : String}
    (h : Video.makeDumpFlt rotate width = some desc) :
    desc.toList = (Entry.label "in".toList noSpace space).print .backslash ++
      (dumpChain rotate width).print .backslash := by
  rw [Video.makeDumpFlt_eq] at h
  split_ifs at h
  rw [Option.some.injEq] at h
  rw [← h, Video.withScale, dumpChain]
  split_ifs with hwidth
  · simp only [Chain.print, Joint.print, Joint.entry, Entry.print, End.print, print_rotateSpec,
      print_scaleSpec hwidth, String.toList_append, List.append_assoc]
    rfl
  · simp only [Chain.print, Entry.print, End.print, print_rotateSpec, String.toList_append,
      List.append_assoc]
    rfl

/-! ## The graph -/

/-- The source and the sink, before the description is parsed. -/
def sourceAndSink (args : Text) : FilterGraph where
  filters := [⟨"in".toList, "buffer".toList, some args, [], [.video]⟩,
    ⟨"out".toList, "buffersink".toList, none, [.video], []⟩]
  links := []
  scaleSwsOpts := none

/-- There is a filter of this name, which has these pads for these arguments. -/
def Filters.Has (lib : Filters) (name : Text) (args : Option Text)
    (pads : List MediaType × List MediaType) : Prop :=
  lib.getByName name = true ∧ lib.initStr name args = .ok pads

theorem ends_sourceAndSink (args : Text) : Ends (sourceAndSink args) ⟨0, 0⟩ ⟨1, 0⟩ :=
  ⟨⟨List.Perm.refl _, List.Perm.refl _, fun _ hl => absurd hl List.not_mem_nil⟩, rfl, rfl⟩

/-- The names of the filters are no names of instances. -/
theorem fits_dumpFilters {lib : Filters} {rotate width : ℤ}
    (hlib : ∀ f ∈ dumpFilters rotate width, lib.Has f.name f.args ([.video], [.video]))
    {f : Spec} (hf : f ∈ dumpFilters rotate width) (index : ℕ) : f.Fits lib none index := by
  have hname : f.name = "transpose".toList ∨ f.name = "rotate".toList ∨
      f.name = "scale".toList := by
    have hmem : f = rotateSpec rotate ∨ f = scaleSpec width := by
      rw [dumpFilters] at hf
      split_ifs at hf
      · simpa using hf
      · exact Or.inl (by simpa using hf)
    rcases hmem with rfl | rfl
    · rw [rotateSpec]
      split_ifs
      · exact Or.inl rfl
      · exact Or.inr (Or.inl rfl)
      · exact Or.inl rfl
      · exact Or.inr (Or.inl rfl)
    · exact Or.inr (Or.inr rfl)
  have hne : f.name ≠ [] := by
    rcases hname with h | h | h <;> rw [h] <;> decide
  have hplain : (filterNames f.name index).1 = f.name := by
    rcases hname with h | h | h <;> rw [h] <;> rfl
  have hargs : scaleArgs none f.name f.args = f.args := by
    rw [scaleArgs]
    split_ifs
    · rfl
    · rfl
  exact ⟨hne, by rw [hplain]; exact (hlib f hf).1, by rw [hplain, hargs]; exact (hlib f hf).2⟩

/-- **`make_flt` builds the graph of a thumbnail**: for every angle and width, the source is
linked to the filter that turns the picture, that one to the scaler if there is a width, and the
last one to the sink. -/
theorem makeFlt_makeDumpFlt {lib : Filters} {args : Text}
    (hsource : lib.Has "buffer".toList (some args) ([], [.video]))
    (hsink : lib.Has "buffersink".toList none ([.video], [])) {rotate width : ℤ}
    (hlib : ∀ f ∈ dumpFilters rotate width, lib.Has f.name f.args ([.video], [.video]))
    {desc : String} (hdesc : Video.makeDumpFlt rotate width = some desc)
    (configOk : FilterGraph → Bool) :
    makeFlt lib configOk args desc.toList =
      if configOk (chained (sourceAndSink args) 0 ⟨0, 0⟩ ⟨1, 0⟩ (dumpFilters rotate width)) then
        Flow.next (chained (sourceAndSink args) 0 ⟨0, 0⟩ ⟨1, 0⟩ (dumpFilters rotate width))
      else Flow.ret (-20400) := by
  have hends := ends_sourceAndSink args
  have hfits : ∀ (i : ℕ) (f : Spec), (dumpChain rotate width).filters[i]? = some f →
      f.Fits lib (sourceAndSink args).scaleSwsOpts i := by
    intro i f hf
    rw [filters_dumpChain] at hf
    exact fits_dumpFilters hlib (List.mem_of_getElem? hf) i
  have hchain : (dumpChain rotate width).Fits := by
    rw [dumpChain]
    split_ifs
    · exact ⟨⟨by decide, by decide⟩, trivial⟩
    · trivial
  have hflags : ¬ "sws_flags=".toList <+:
      (Entry.label "in".toList noSpace space).print .backslash ++
        (dumpChain rotate width).print .backslash := by
    rintro ⟨rest, hrest⟩
    exact absurd (List.cons.inj hrest).1 (by decide)
  rcases parse_entered .backslash (dumpChain rotate width)
    (hends.entered (e := .label "in".toList noSpace space) rfl _) hchain hfits hflags with
    ⟨s, hs, hfinished⟩
  have hvalid := hfinished.valid hends hs
  rw [filters_dumpChain] at hfinished
  rw [hfinished.graph] at hvalid
  rw [← makeDumpFlt_eq_print hdesc] at hs
  simp only [makeFlt, hsource.1, hsource.2, hsink.1, hsink.2]
  rw [sourceAndSink] at hs
  rw [hs]
  dsimp only
  rw [hfinished.graph, hvalid, Bool.true_and]

/-- The filters of a thumbnail. -/
def thumbnailFilters : Filters where
  getByName name := ["buffer".toList, "buffersink".toList, "rotate".toList, "transpose".toList,
    "scale".toList].contains name
  initStr name _ :=
    if name = "buffer".toList then .ok ([], [.video])
    else if name = "buffersink".toList then .ok ([.video], [])
    else .ok ([.video], [.video])

/-- A quarter turn, and a width. -/
theorem makeFlt_makeDumpFlt_quarter :
    makeFlt thumbnailFilters (fun _ => true) "video_size=4x2".toList
        "[in] transpose=1 [inter]; [inter]  scale=300:300/a [out]".toList =
      Flow.next (chained (sourceAndSink "video_size=4x2".toList) 0 ⟨0, 0⟩ ⟨1, 0⟩
        (dumpFilters 90 300)) := by
  have hlib : ∀ f ∈ dumpFilters 90 300,
      thumbnailFilters.Has f.name f.args ([.video], [.video]) := by
    intro f hf
    simp only [dumpFilters, Int.reduceLT, if_true, List.mem_cons, List.not_mem_nil, or_false] at hf
    rcases hf with rfl | rfl
    · exact ⟨rfl, rfl⟩
    · exact ⟨rfl, rfl⟩
  exact makeFlt_makeDumpFlt ⟨rfl, rfl⟩ ⟨rfl, rfl⟩ hlib (by decide) fun _ => true

end AudioCrash.Graph
