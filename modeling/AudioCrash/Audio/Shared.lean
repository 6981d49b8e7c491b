import AudioCrash.Lib.Interleave
import AudioCrash.Audio.Steps

/-!
# Objects that share the sample buffer

Each of the four classes keeps its array of plane pointers in a static variable of its file,
which all objects of the class use: `buffer` is cleared and filled in `/// 4. Alloc`, the pulls
and `tune` write through it, `encode_frame` is laid out from `buffer[0]`, and the destructor
frees `buffer[0]`. Everything else belongs to one object.

The objects of a class take turns, one call at a time. The memory is one function of addresses,
and a pointer has eight bytes, the lowest first, so that `memset` can clear a part of it.

## Main definitions

* `Object`, `Life`, `World`, `move` — the objects and their steps.
* `Object.frames` — what the encoder is given when the object runs alone.
* `Isolated` — no step of one object disturbs another one.
* `Meets`, `isolated_iff` — when this is so.
-/

namespace AudioCrash.Audio

variable {ι α : Type}

/-! ## The objects -/

/-- An object of a class, and the input of its run. -/
structure Object (α : Type) where
  context : Context α
  /-- The calls before `/// 4. Alloc`. -/
  setUp : ℕ
  /-- The run is left after these calls. -/
  fails : Bool
  events : List (Event α)
  handle : ℕ → ℤ
  /-- What `av_samples_alloc` leaves in the block: silence in the planes, and what was there in
  the bytes between them. -/
  fresh : ℤ → α

namespace Object

/-- The size of the sample buffer in bytes. -/
def size (o : Object α) : ℕ := bufferSize o.context.C o.context.F

/-- The number of bytes that `memset` clears: `?:` takes the whole product as its condition. -/
def cleared (o : Object α) : ℕ :=
  if 8 * o.context.fmt.isPlanar.toNat ≠ 0 then o.context.C else 1

variable [Zero α]

/-- The buffer of an object that runs alone, from `buffer[0]` on. -/
def silence (o : Object α) (a : ℤ) : α := if 0 ≤ a ∧ a < o.size then o.fresh a else 0

/-- The script of the object from `/// 5. Decode` on. -/
def body (o : Object α) : Body o.context (State α) :=
  Steps.run o.context o.events (State.init o.context (fun _ => 0) o.handle)

/-- **The frames that the encoder is given when the object runs alone.** -/
def frames (o : Object α) : List (AVFrame α) :=
  match run o.context o.events (State.init o.context o.silence o.handle) with
  | .ret r => (handed r.2.log).map Prod.snd
  | _ => []

end Object

/-- Where an object is. -/
inductive Life (x : Context α) where
  /-- Before `/// 4. Alloc`, with calls left. -/
  | setUp (calls : ℕ)
  /-- Before `memset(buffer, 0, size)`. -/
  | clear
  /-- Before `av_samples_alloc`. -/
  | alloc
  /-- From `/// 5. Decode` on, with `is_av_alloc`, until the destructor. -/
  | decode (body : Body x (State α))
  | destroyed

/-- A block that `av_malloc` has returned and that has not been freed. -/
structure Block (ι : Type) where
  owner : ι
  base : ℤ
  size : ℕ
  deriving DecidableEq

/-- The static array, the memory, `encode_frame->data` of each object, and what has happened
so far. -/
structure World (ι α : Type) where
  /-- `buffer`. -/
  table : ℕ → ℤ
  mem : ℤ → α
  heap : List (Block ι)
  data : ι → Option (ℕ → ℤ)
  /-- The frames that the encoder of an object has been given. -/
  heard : ι → List (AVFrame α)
  /-- The blocks that an object has allocated. -/
  allocs : ι → List ℤ
  /-- The addresses that the destructor of an object has freed. -/
  frees : ι → List ℤ

/-! ## The steps -/

/-- `memset(table, 0, size)`. -/
def memset (size : ℕ) (table : ℕ → ℤ) (k : ℕ) : ℤ :=
  table k / 256 ^ min 8 (size - 8 * k) * 256 ^ min 8 (size - 8 * k)

/-- A pointer is kept when the bytes cleared are 0. -/
theorem memset_eq_iff (size : ℕ) (table : ℕ → ℤ) (k : ℕ) :
    memset size table k = table k ↔ 256 ^ min 8 (size - 8 * k) ∣ table k :=
  ⟨fun h => Dvd.intro_left _ h, Int.ediv_mul_cancel⟩

namespace World

/-- `av_malloc` can return a block of this size at this address. -/
def Fits (w : World ι α) (base : ℤ) (size : ℕ) : Prop :=
  0 < base ∧ ∀ b ∈ w.heap, base + size ≤ b.base ∨ b.base + b.size ≤ base

instance (w : World ι α) (base : ℤ) (size : ℕ) : Decidable (w.Fits base size) :=
  inferInstanceAs (Decidable (_ ∧ _))

variable [DecidableEq ι]

/-- `av_samples_alloc(buffer, ..)`, which gets this block. -/
def alloc (w : World ι α) (o : Object α) (i : ι) (base : ℤ) : World ι α :=
  { w with
    table := fun p => if p < o.context.C then base + planeAt o.context.F p else w.table p
    mem := fun a => if base ≤ a ∧ a < base + o.size then o.fresh (a - base) else w.mem a
    heap := ⟨i, base, o.size⟩ :: w.heap
    allocs := Function.update w.allocs i (w.allocs i ++ [base]) }

/-- `av_freep(&buffer[0])`, which does nothing to a null pointer. -/
def free (w : World ι α) (i : ι) : World ι α :=
  if w.table 0 = 0 then w
  else
    { w with
      table := Function.update w.table 0 0
      heap := w.heap.filter fun b => b.base ≠ w.table 0
      frees := Function.update w.frees i (w.frees i ++ [w.table 0]) }

variable [Zero α]

/-- The frame that the encoder is given: the bytes of the buffer from `encode_frame->data[0]`
on. -/
def frame (w : World ι α) (i : ι) (size n : ℕ) : AVFrame α :=
  match w.data i with
  | some data =>
    ⟨n, fun p => data p - data 0, fun a => if 0 ≤ a ∧ a < size then w.mem (data 0 + a) else 0⟩
  | none => ⟨n, fun _ => 0, fun _ => 0⟩

end World

section move
variable [DecidableEq ι] [Zero α]

/-- The calls on the buffer that all objects share. -/
def useShared (o : Object α) (i : ι) : (op : Use o.context) → World ι α → op.Reply × World ι α
  | .own, w => ((), w)
  | .pull queue, w => ((), { w with mem := store o.context w.table queue w.mem })
  | .tune args n _, w =>
    ((), { w with mem := o.context.pipeline.tune args w.table n o.context.C w.mem })
  | .fill n, w =>
    ((), { w with data := Function.update w.data i (some fun p => w.table 0 + planeAt n p) })
  | .send n, w =>
    (w.frame i o.size n,
      { w with heard := Function.update w.heard i (w.heard i ++ [w.frame i o.size n]) })

/-- A step of an object. `av_malloc` fails, or returns the address chosen; `av_samples_alloc`
fails, too, when there are no channels or no samples. -/
def move (x : ι → Object α) (i : ι) (choice : Option ℤ) (life : Life (x i).context)
    (w : World ι α) : Option (Life (x i).context × World ι α) :=
  match life with
  | .setUp (calls + 1) => some (.setUp calls, w)
  | .setUp 0 => some (if (x i).fails then .destroyed else .clear, w)
  | .clear => some (.alloc, { w with table := memset (x i).cleared w.table })
  | .alloc =>
    match choice with
    | none => some (.destroyed, w)
    | some base =>
      if 0 < (x i).context.C ∧ 0 < (x i).context.F ∧ w.Fits base (x i).size then
        some (.decode (x i).body, w.alloc (x i) i base)
      else none
  | .decode (.call op k) =>
    some (.decode (k (useShared (x i) i op w).1), (useShared (x i) i op w).2)
  | .decode (.ret _) => some (.destroyed, w.free i)
  | .decode _ => none
  | .destroyed => none

/-- The state of a class and its objects. -/
abbrev Class (x : ι → Object α) := System (fun i => Life (x i).context) (World ι α)

/-- The state before any object has been run, for any content of the memory. -/
def Class.init (x : ι → Object α) (mem : ℤ → α) : Class x where
  part i := .setUp (x i).setUp
  world :=
    { table := fun _ => 0
      mem := mem
      heap := []
      data := fun _ => none
      heard := fun _ => []
      allocs := fun _ => []
      frees := fun _ => [] }

end move

/-! ## What the objects rely on -/

section property
variable [Zero α] (x : ι → Object α)

/-- A step of the object `i` leaves the buffers of the others as they are: their blocks, the
pointers to their planes, and their samples. -/
def Undisturbed (i : ι) (w w' : World ι α) : Prop :=
  ∀ b ∈ w.heap, b.owner ≠ i → b ∈ w'.heap ∧
    (∀ p < (x b.owner).context.C, w'.table p = w.table p) ∧
    ∀ a : ℤ, b.base ≤ a → a < b.base + b.size → w'.mem a = w.mem a

/-- The encoder of an object has been given what it is given when the object runs alone, and
the object frees the block that it has allocated, once, and after it has used it. -/
structure Delivered (s : Class x) (i : ι) : Prop where
  heard : s.world.heard i <+: (x i).frames
  allocs : (s.world.allocs i).length ≤ 1
  frees : s.world.frees i <+: s.world.allocs i
  holds : ∀ body, s.part i = .decode body →
    ∃ b ∈ s.world.heap, b.owner = i ∧ s.world.allocs i = [b.base] ∧ s.world.frees i = []
  complete : s.part i = .destroyed → s.world.frees i = s.world.allocs i ∧
    (s.world.allocs i ≠ [] → s.world.heard i = (x i).frames)

/-- The property of a step. -/
def Isolated (l : ι × Option ℤ) (s s' : Class x) : Prop :=
  Undisturbed x l.1 s.world s'.world ∧ ∀ i, Delivered x s' i

/-- The condition on a step: a block is allocated only while no other one is in use, and of
the plane pointers in use, the bytes that `memset` clears are 0 already. -/
def Meets (i : ι) (choice : Option ℤ) (life : Life (x i).context) (w : World ι α) : Prop :=
  match life with
  | .clear =>
    ∀ b ∈ w.heap, ∀ p < (x b.owner).context.C, 256 ^ min 8 ((x i).cleared - 8 * p) ∣ w.table p
  | .alloc => choice ≠ none → w.heap = []
  | _ => True

end property

/-! ## A block and the buffer of an object that runs alone -/

/-- The samples of the planes lie in the buffer. -/
theorem pcm_planeAt_bounds {C F n p i : ℕ} (hn : n ≤ F) (hp : p < C) (hi : i < n) :
    0 ≤ pcm (planeAt F) p i ∧ pcm (planeAt F) p i < bufferSize C F := by
  have hcell : pcm (planeAt F) p i = ((p * (4 * align32 F) + 4 * i : ℕ) : ℤ) := by
    simp [pcm, planeAt]
  have hrow : i < align32 F := lt_of_lt_of_le (lt_of_lt_of_le hi hn) (le_align32 F)
  have hlt : p * (4 * align32 F) + 4 * i < C * (4 * align32 F) :=
    calc p * (4 * align32 F) + 4 * i < p * (4 * align32 F) + 4 * align32 F := by omega
      _ = (p + 1) * (4 * align32 F) := by ring
      _ ≤ C * (4 * align32 F) := Nat.mul_le_mul_right _ hp
  rw [hcell]
  exact ⟨Int.natCast_nonneg _, by exact_mod_cast hlt⟩

/-- The block at `base` holds what `own` holds from 0 on, and `own` holds nothing else. -/
structure Mirrors [Zero α] (base : ℤ) (size : ℕ) (mem own : ℤ → α) : Prop where
  inside : ∀ a : ℤ, 0 ≤ a → a < size → mem (base + a) = own a
  outside : ∀ a : ℤ, ¬ (0 ≤ a ∧ a < size) → own a = 0

section mirrors
variable [Zero α] {base : ℤ} {C F n : ℕ} {table : ℕ → ℤ} {mem own mem' own' : ℤ → α}

theorem pcm_table (htable : ∀ p < C, table p = base + planeAt F p) {p : ℕ} (hp : p < C) (i : ℕ) :
    pcm table p i = base + pcm (planeAt F) p i := by
  rw [pcm, htable p hp, pcm, add_assoc]

theorem planesApart_table (htable : ∀ p < C, table p = base + planeAt F p) (hn : n ≤ F) :
    PlanesApart table C n := by
  intro p hp p' hp' i hi i' hi' heq
  rw [pcm_table htable hp, pcm_table htable hp'] at heq
  exact planesApart_planeAt C hn p hp p' hp' i hi i' hi' (add_left_cancel heq)

/-- An update of the samples through the table is one of the buffer of its own. -/
theorem Mirrors.update (h : Mirrors base (bufferSize C F) mem own)
    (htable : ∀ p < C, table p = base + planeAt F p) (hn : n ≤ F) (g : ℕ → ℕ → α → α)
    (hcell : ∀ p < C, ∀ i < n, mem' (pcm table p i) = g p i (mem (pcm table p i)))
    (hother : ∀ a, (∀ p < C, ∀ i < n, a ≠ pcm table p i) → mem' a = mem a)
    (hcell' : ∀ p < C, ∀ i < n,
      own' (pcm (planeAt F) p i) = g p i (own (pcm (planeAt F) p i)))
    (hother' : ∀ a, (∀ p < C, ∀ i < n, a ≠ pcm (planeAt F) p i) → own' a = own a) :
    Mirrors base (bufferSize C F) mem' own' := by
  constructor
  · intro a hlow hhigh
    by_cases hex : ∃ p < C, ∃ i < n, a = pcm (planeAt F) p i
    · rcases hex with ⟨p, hp, i, hi, rfl⟩
      rw [hcell' p hp i hi, ← h.inside _ hlow hhigh, ← pcm_table htable hp]
      exact hcell p hp i hi
    · push Not at hex
      rw [hother' a hex, ← h.inside a hlow hhigh]
      refine hother _ ?_
      intro p hp i hi heq
      rw [pcm_table htable hp] at heq
      exact hex p hp i hi (add_left_cancel heq)
  · intro a houtside
    rw [hother' a, h.outside a houtside]
    intro p hp i hi heq
    exact houtside (heq ▸ pcm_planeAt_bounds hn hp hi)

end mirrors

/-! ## What an object relies on -/

section relies
variable [DecidableEq ι] [Zero α] {x : ι → Object α} {i j : ι} {w w' : World ι α} {base : ℤ}
  {own : Private α}

/-- The object holds the only block, and the table leads into it. -/
structure Owned (o : Object α) (i : ι) (base : ℤ) (w : World ι α) (own : Private α) : Prop where
  base_pos : 0 < base
  C_pos : 0 < o.context.C
  F_pos : 0 < o.context.F
  heap : w.heap = [⟨i, base, o.size⟩]
  table : ∀ p < o.context.C, w.table p = base + planeAt o.context.F p
  mem : Mirrors base o.size w.mem own.mem
  data : w.data i = own.filled.map fun m p => base + planeAt m p
  heard : w.heard i = own.heard
  allocs : w.allocs i = [base]
  frees : w.frees i = []

omit [DecidableEq ι] in
/-- The encoder is given the frame that it would be given alone. -/
theorem Owned.frame {o : Object α} (h : Owned o i base w own) (n : ℕ) :
    w.frame i o.size n = own.frame n := by
  rw [World.frame, Private.frame, h.data]
  cases own.filled with
  | none => rfl
  | some m =>
    simp only [Option.map_some, planeAt_zero, add_zero, add_sub_cancel_left]
    congr 1
    ext a
    split_ifs with ha
    · exact h.mem.inside a ha.1 ha.2
    · exact (h.mem.outside a ha).symm

/-- **A call on the shared buffer does what it does on a buffer of one's own.** -/
theorem Owned.use {o : Object α} (h : Owned o i base w own) (op : Use o.context) :
    (useShared o i op w).1 = (usePrivate o.context op own).1 ∧
      Owned o i base (useShared o i op w).2 (usePrivate o.context op own).2 := by
  cases op with
  | own => exact ⟨rfl, h⟩
  | pull queue =>
    refine ⟨rfl, { h with mem := ?_ }⟩
    have hle : (queue.take o.context.F).length ≤ o.context.F := List.length_take_le _ _
    refine h.mem.update h.table hle
      (fun p i old => (((queue.take o.context.F)[i]?).map fun v => v p).getD old) ?_ ?_ ?_ ?_
    · intro p hp i hi
      exact Grid.updateGrid_cell _ _ _ _ _ (planesApart_table h.table hle) hp hi
    · intro a ha
      exact Grid.updateGrid_other _ _ _ _ _ ha
    · intro p hp i hi
      exact Grid.updateGrid_cell _ _ _ _ _ (planesApart_planeAt _ hle) hp hi
    · intro a ha
      exact Grid.updateGrid_other _ _ _ _ _ ha
  | tune args n le =>
    refine ⟨rfl, { h with mem := ?_ }⟩
    refine h.mem.update h.table le (fun _ _ => o.context.pipeline.gain args) ?_ ?_ ?_ ?_
    · intro p hp i hi
      exact o.context.pipeline.tune_cell args _ (planesApart_table h.table le) hp hi
    · intro a ha
      exact o.context.pipeline.tune_other args _ ha
    · intro p hp i hi
      exact o.context.pipeline.tune_cell args _ (planesApart_planeAt _ le) hp hi
    · intro a ha
      exact o.context.pipeline.tune_other args _ ha
  | fill n =>
    refine ⟨rfl, { h with data := ?_ }⟩
    have hzero := h.table 0 h.C_pos
    rw [planeAt_zero, add_zero] at hzero
    simp [useShared, usePrivate, hzero]
  | send n =>
    refine ⟨h.frame n, { h with heard := ?_ }⟩
    simp [useShared, usePrivate, h.heard, h.frame n]

/-- The buffer of an object that runs alone, before its first pull. -/
def Object.start (o : Object α) : Private α := ⟨o.silence, none, []⟩

omit [DecidableEq ι] in
/-- An object that runs alone comes to its end, and its encoder has been given its frames. -/
theorem Object.exec_body (o : Object α) (hF : 0 < o.context.F) : ∃ r own,
    o.body.exec (usePrivate o.context) o.start = .ret (r, own) ∧ own.heard = o.frames := by
  have hlinked : Linked (State.init o.context (fun _ => 0) o.handle, o.start)
      (State.init o.context o.silence o.handle) := ⟨fun _ => 0, rfl, rfl⟩
  have hfollows := run_linked (x := o.context) hlinked o.events
  rcases (run_done o.context o.events o.silence o.handle).exists_ret
    (run_ne_hang o.context hF o.events _) with ⟨r', hrun, -⟩
  rw [Object.frames, Object.body]
  rw [Follows, hrun] at hfollows
  cases hexec : (Steps.run o.context o.events (State.init o.context (fun _ => 0) o.handle)).exec
      (usePrivate o.context) o.start with
  | next r =>
    rw [hexec] at hfollows
    exact hfollows.elim
  | hang =>
    rw [hexec] at hfollows
    exact hfollows.elim
  | ret r =>
    rw [hexec] at hfollows
    rcases hfollows with ⟨_, data, hs, hheard⟩
    rw [hrun]
    refine ⟨r.1, r.2, rfl, hheard.trans ?_⟩
    change _ = (handed r'.2.log).map Prod.snd
    rw [hs]

/-- An object that has not allocated its block. -/
structure Untouched (i : ι) (w : World ι α) : Prop where
  heap : ∀ b ∈ w.heap, b.owner ≠ i
  data : w.data i = none
  heard : w.heard i = []
  allocs : w.allocs i = []
  frees : w.frees i = []

/-- An object that has freed its block, if it has had one. -/
structure Gone (o : Object α) (i : ι) (w : World ι α) : Prop where
  heap : ∀ b ∈ w.heap, b.owner ≠ i
  frees : w.frees i = w.allocs i
  heard : w.allocs i = [] ∧ w.heard i = [] ∨
    (∃ base, w.allocs i = [base]) ∧ w.heard i = o.frames

/-- An object that holds its block, and whose calls have done what they do on a buffer of
its own. -/
def Holding (o : Object α) (i : ι) (body : Body o.context (State α)) (w : World ι α) : Prop :=
  ∃ base own, Owned o i base w own ∧
    body.exec (usePrivate o.context) own = o.body.exec (usePrivate o.context) o.start

/-- **What an object relies on.** -/
def Sound (x : ι → Object α) (i : ι) : Life (x i).context → World ι α → Prop
  | .decode body, w => Holding (x i) i body w
  | .destroyed, w => Gone (x i) i w
  | _, w => Untouched i w

theorem World.alloc_owned {o : Object α} (h : Untouched i w) (hheap : w.heap = [])
    (hC : 0 < o.context.C) (hF : 0 < o.context.F) (hfits : w.Fits base o.size) :
    Owned o i base (w.alloc o i base) o.start where
  base_pos := hfits.1
  C_pos := hC
  F_pos := hF
  heap := by rw [World.alloc, hheap]
  table p hp := if_pos hp
  mem := by
    constructor
    · intro a hlow hhigh
      have hin : base ≤ base + a ∧ base + a < base + o.size := by omega
      simp only [World.alloc, Object.start, Object.silence]
      rw [if_pos hin, if_pos ⟨hlow, hhigh⟩, add_sub_cancel_left]
    · intro a houtside
      exact if_neg houtside
  data := h.data
  heard := h.heard
  allocs := by
    simp only [World.alloc, Function.update_self]
    rw [h.allocs, List.nil_append]
  frees := h.frees

theorem Owned.free {o : Object α} (h : Owned o i base w own) (hheard : own.heard = o.frames) :
    Gone o i (w.free i) := by
  have hzero := h.table 0 h.C_pos
  rw [planeAt_zero, add_zero] at hzero
  have hne : w.table 0 ≠ 0 := by
    rw [hzero]
    exact h.base_pos.ne'
  have hfree : w.free i = { w with
      table := Function.update w.table 0 0
      heap := []
      frees := Function.update w.frees i [base] } := by
    rw [World.free, if_neg hne, h.frees, h.heap, hzero]
    simp
  rw [hfree]
  refine ⟨by simp, ?_, Or.inr ⟨⟨base, h.allocs⟩, h.heard.trans hheard⟩⟩
  simp only [Function.update_self]
  exact h.allocs.symm

/-- The steps of an object, one by one. -/
inductive Moved (x : ι → Object α) (i : ι) (choice : Option ℤ) (w : World ι α) :
    Life (x i).context → Life (x i).context → World ι α → Prop where
  | setUp (calls : ℕ) : Moved x i choice w (.setUp (calls + 1)) (.setUp calls) w
  | failed : (x i).fails = true → Moved x i choice w (.setUp 0) .destroyed w
  | ready : (x i).fails = false → Moved x i choice w (.setUp 0) .clear w
  | cleared :
    Moved x i choice w .clear .alloc { w with table := memset (x i).cleared w.table }
  | refused : choice = none → Moved x i choice w .alloc .destroyed w
  | allocated (base : ℤ) : choice = some base → 0 < (x i).context.C → 0 < (x i).context.F →
    w.Fits base (x i).size →
    Moved x i choice w .alloc (.decode (x i).body) (w.alloc (x i) i base)
  | called (op : Use (x i).context) (k : op.Reply → Body (x i).context (State α)) :
    Moved x i choice w (.decode (.call op k)) (.decode (k (useShared (x i) i op w).1))
      (useShared (x i) i op w).2
  | freed (r : ℤ × State α) : Moved x i choice w (.decode (.ret r)) .destroyed (w.free i)

theorem moved_of_move {choice : Option ℤ} {life life' : Life (x i).context}
    (hmove : move x i choice life w = some (life', w')) : Moved x i choice w life life' w' := by
  cases life with
  | setUp calls =>
    cases calls with
    | succ calls =>
      cases hmove
      exact .setUp calls
    | zero =>
      cases hmove
      cases hfails : (x i).fails with
      | true => exact .failed hfails
      | false => exact .ready hfails
  | clear =>
    cases hmove
    exact .cleared
  | alloc =>
    cases choice with
    | none =>
      cases hmove
      exact .refused rfl
    | some base =>
      simp only [move] at hmove
      split_ifs at hmove with hfits
      cases hmove
      exact .allocated base rfl hfits.1 hfits.2.1 hfits.2.2
  | decode body =>
    cases body with
    | next s => cases hmove
    | hang => cases hmove
    | ret r =>
      cases hmove
      exact .freed r
    | call op k =>
      cases hmove
      exact .called op k
  | destroyed => cases hmove

omit [DecidableEq ι] in
theorem Untouched.gone {o : Object α} (h : Untouched i w) : Gone o i w :=
  ⟨h.heap, h.frees.trans h.allocs.symm, Or.inl ⟨h.allocs, h.heard⟩⟩

/-- **What an object relies on is kept by its own steps.** -/
theorem sound_own {choice : Option ℤ} {life life' : Life (x i).context} (h : Sound x i life w)
    (hmeets : Meets x i choice life w) (hmoved : Moved x i choice w life life' w') :
    Sound x i life' w' := by
  cases hmoved with
  | setUp calls => exact h
  | failed => exact Untouched.gone h
  | ready => exact h
  | cleared => exact ⟨h.heap, h.data, h.heard, h.allocs, h.frees⟩
  | refused => exact Untouched.gone h
  | allocated base hchoice hC hF hfits =>
    have hheap : w.heap = [] := hmeets (by simp [hchoice])
    exact ⟨base, (x i).start, World.alloc_owned h hheap hC hF hfits, rfl⟩
  | called op k =>
    rcases h with ⟨base, own, howned, hexec⟩
    have huse := howned.use op
    refine ⟨base, _, huse.2, ?_⟩
    rw [huse.1, ← hexec, Script.exec_call]
  | freed r =>
    rcases h with ⟨base, own, howned, hexec⟩
    rcases (x i).exec_body howned.F_pos with ⟨r', own', hbody, hheard⟩
    rw [hbody, Script.exec_ret, Flow.ret.injEq, Prod.mk.injEq] at hexec
    exact howned.free (hexec.2 ▸ hheard)

/-- Nothing that belongs to the object `i` has changed, and it has got no block. -/
structure Apart (i : ι) (w w' : World ι α) : Prop where
  heap : ∀ b ∈ w'.heap, b.owner = i → b ∈ w.heap
  data : w'.data i = w.data i
  heard : w'.heard i = w.heard i
  allocs : w'.allocs i = w.allocs i
  frees : w'.frees i = w.frees i

theorem useShared_apart (hij : i ≠ j) (o : Object α) (op : Use o.context) (w : World ι α) :
    Apart i w (useShared o j op w).2 := by
  cases op with
  | own => exact ⟨fun b hb _ => hb, rfl, rfl, rfl, rfl⟩
  | pull queue => exact ⟨fun b hb _ => hb, rfl, rfl, rfl, rfl⟩
  | tune args n le => exact ⟨fun b hb _ => hb, rfl, rfl, rfl, rfl⟩
  | fill n => exact ⟨fun b hb _ => hb, Function.update_of_ne hij _ _, rfl, rfl, rfl⟩
  | send n => exact ⟨fun b hb _ => hb, rfl, Function.update_of_ne hij _ _, rfl, rfl⟩

omit [Zero α] in
theorem free_apart (hij : i ≠ j) (w : World ι α) : Apart i w (w.free j) := by
  rw [World.free]
  split_ifs
  · exact ⟨fun b hb _ => hb, rfl, rfl, rfl, rfl⟩
  · exact ⟨fun b hb _ => List.mem_of_mem_filter hb, rfl, rfl, rfl, Function.update_of_ne hij _ _⟩

/-- A step of another object. -/
theorem Moved.apart (hij : i ≠ j) {choice : Option ℤ} {life life' : Life (x j).context}
    (hmoved : Moved x j choice w life life' w') : Apart i w w' := by
  have hrefl : Apart i w w := ⟨fun b hb _ => hb, rfl, rfl, rfl, rfl⟩
  cases hmoved with
  | setUp calls => exact hrefl
  | failed => exact hrefl
  | ready => exact hrefl
  | cleared => exact ⟨fun b hb _ => hb, rfl, rfl, rfl, rfl⟩
  | refused => exact hrefl
  | allocated base =>
    refine ⟨?_, rfl, rfl, Function.update_of_ne hij _ _, rfl⟩
    intro b hb howner
    rcases List.mem_cons.1 hb with rfl | hb
    · exact absurd howner.symm hij
    · exact hb
  | called op k => exact useShared_apart hij (x j) op w
  | freed r => exact free_apart hij w

omit [DecidableEq ι] [Zero α] in
theorem Untouched.apart (h : Untouched i w) (hapart : Apart i w w') : Untouched i w' where
  heap b hb howner := h.heap b (hapart.heap b hb howner) howner
  data := hapart.data.trans h.data
  heard := hapart.heard.trans h.heard
  allocs := hapart.allocs.trans h.allocs
  frees := hapart.frees.trans h.frees

omit [DecidableEq ι] in
theorem Gone.apart {o : Object α} (h : Gone o i w) (hapart : Apart i w w') : Gone o i w' where
  heap b hb howner := h.heap b (hapart.heap b hb howner) howner
  frees := by rw [hapart.frees, hapart.allocs, h.frees]
  heard := by
    rw [hapart.allocs, hapart.heard]
    exact h.heard

/-- **A step that meets the condition leaves the blocks of the others as they are.** -/
theorem Meets.keeps {choice : Option ℤ} {life life' : Life (x j).context}
    (hmeets : Meets x j choice life w) (h : Sound x j life w)
    (hmoved : Moved x j choice w life life' w') {b : Block ι} (hb : b ∈ w.heap)
    (hne : b.owner ≠ j) : w'.heap = w.heap ∧ w'.mem = w.mem ∧
      ∀ p < (x b.owner).context.C, w'.table p = w.table p := by
  -- An object that holds a block holds the only one.
  have honly : ∀ {body}, ¬ Holding (x j) j body w := by
    intro body hholding
    rcases hholding with ⟨base, own, howned, hexec⟩
    rw [howned.heap, List.mem_singleton] at hb
    exact hne (congrArg Block.owner hb)
  have hrefl : w.heap = w.heap ∧ w.mem = w.mem ∧
      ∀ p < (x b.owner).context.C, w.table p = w.table p := ⟨rfl, rfl, fun _ _ => rfl⟩
  cases hmoved with
  | setUp calls => exact hrefl
  | failed => exact hrefl
  | ready => exact hrefl
  | cleared => exact ⟨rfl, rfl, fun p hp => (memset_eq_iff _ _ p).2 (hmeets b hb p hp)⟩
  | refused => exact hrefl
  | allocated base hchoice =>
    have hheap : w.heap = [] := hmeets (by simp [hchoice])
    exact absurd (hheap ▸ hb) List.not_mem_nil
  | called op k => exact absurd h honly
  | freed r => exact absurd h honly

/-- **What an object relies on is kept by the steps of the others.** -/
theorem sound_other (hij : i ≠ j) {choice : Option ℤ} {a : Life (x i).context}
    {life life' : Life (x j).context} (h : Sound x i a w) (hj : Sound x j life w)
    (hmeets : Meets x j choice life w) (hmoved : Moved x j choice w life life' w') :
    Sound x i a w' := by
  have hapart := hmoved.apart hij
  cases a with
  | setUp calls => exact h.apart hapart
  | clear => exact h.apart hapart
  | alloc => exact h.apart hapart
  | destroyed => exact h.apart hapart
  | decode body =>
    rcases h with ⟨base, own, howned, hexec⟩
    have hb : ⟨i, base, (x i).size⟩ ∈ w.heap := howned.heap ▸ List.mem_singleton_self _
    rcases hmeets.keeps hj hmoved hb hij with ⟨hheap, hmem, htable⟩
    refine ⟨base, own, ?_, hexec⟩
    exact { howned with
      heap := hheap.trans howned.heap
      table := fun p hp => (htable p hp).trans (howned.table p hp)
      mem := hmem ▸ howned.mem
      data := hapart.data.trans howned.data
      heard := hapart.heard.trans howned.heard
      allocs := hapart.allocs.trans howned.allocs
      frees := hapart.frees.trans howned.frees }

/-! ## What an object is given -/

/-- What the encoder has been given stays. -/
theorem usePrivate_heard (x : Context α) (op : Use x) (own : Private α) :
    own.heard <+: (usePrivate x op own).2.heard := by
  cases op with
  | own => exact List.prefix_rfl
  | pull queue => exact List.prefix_rfl
  | tune args n le => exact List.prefix_rfl
  | fill n => exact List.prefix_rfl
  | send n => exact List.prefix_append _ _

omit [DecidableEq ι] in
/-- An object that holds its block has given its encoder the first frames. -/
theorem Holding.heard {o : Object α} {body : Body o.context (State α)}
    (h : Holding o i body w) : w.heard i <+: o.frames := by
  rcases h with ⟨base, own, howned, hexec⟩
  rcases o.exec_body howned.F_pos with ⟨r, own', hbody, hheard⟩
  have hholds := Script.exec_holds (P := fun own' => own.heard <+: own'.heard)
    (fun op own' h => h.trans (usePrivate_heard o.context op own')) body List.prefix_rfl
  rw [hexec, hbody] at hholds
  rw [howned.heard, ← hheard]
  exact hholds

omit [DecidableEq ι] in
theorem Untouched.delivered {s : Class x} (h : Untouched i s.world)
    (hdecode : ∀ body, s.part i ≠ .decode body) (hdestroyed : s.part i ≠ .destroyed) :
    Delivered x s i where
  heard := by
    rw [h.heard]
    exact List.nil_prefix
  allocs := by simp [h.allocs]
  frees := by
    rw [h.frees]
    exact List.nil_prefix
  holds body hbody := absurd hbody (hdecode body)
  complete hend := absurd hend hdestroyed

omit [DecidableEq ι] in
theorem Holding.delivered {s : Class x} {body : Body (x i).context (State α)}
    (h : Holding (x i) i body s.world) (hdestroyed : s.part i ≠ .destroyed) :
    Delivered x s i := by
  have hheard := h.heard
  rcases h with ⟨base, own, howned, hexec⟩
  constructor
  · exact hheard
  · simp [howned.allocs]
  · simp [howned.frees]
  · intro body' hbody
    exact ⟨_, howned.heap ▸ List.mem_singleton_self _, rfl, howned.allocs, howned.frees⟩
  · intro hend
    exact absurd hend hdestroyed

omit [DecidableEq ι] in
theorem Gone.delivered {s : Class x} (h : Gone (x i) i s.world)
    (hdecode : ∀ body, s.part i ≠ .decode body) : Delivered x s i := by
  constructor
  · rcases h.heard with hnone | hall
    · rw [hnone.2]
      exact List.nil_prefix
    · exact hall.2 ▸ List.prefix_rfl
  · rcases h.heard with hnone | hall
    · simp [hnone.1]
    · rcases hall.1 with ⟨base, hbase⟩
      simp [hbase]
  · exact h.frees ▸ List.prefix_rfl
  · intro body hbody
    exact absurd hbody (hdecode body)
  · intro _
    refine ⟨h.frees, fun hne => ?_⟩
    rcases h.heard with hnone | hall
    · exact absurd hnone.1 hne
    · exact hall.2

omit [DecidableEq ι] in
theorem Sound.delivered {s : Class x} (h : Sound x i (s.part i) s.world) : Delivered x s i := by
  cases hlife : s.part i with
  | setUp calls =>
    rw [hlife] at h
    exact Untouched.delivered h (by simp [hlife]) (by simp [hlife])
  | clear =>
    rw [hlife] at h
    exact Untouched.delivered h (by simp [hlife]) (by simp [hlife])
  | alloc =>
    rw [hlife] at h
    exact Untouched.delivered h (by simp [hlife]) (by simp [hlife])
  | decode body =>
    rw [hlife] at h
    exact Holding.delivered h (by simp [hlife])
  | destroyed =>
    rw [hlife] at h
    exact Gone.delivered h (by simp [hlife])

/-! ## The condition -/

omit [Zero α] in
theorem Object.size_pos (o : Object α) (hC : 0 < o.context.C) (hF : 0 < o.context.F) :
    0 < o.size := by
  have hrow : 0 < align32 o.context.F := hF.trans_le (le_align32 _)
  exact Nat.mul_pos hC (Nat.mul_pos (by decide) hrow)

omit [DecidableEq ι] in
/-- A block belongs to an object that holds it. -/
theorem sound_heap {s : Class x} (h : ∀ i, Sound x i (s.part i) s.world) {b : Block ι}
    (hb : b ∈ s.world.heap) : ∃ own, Owned (x b.owner) b.owner b.base s.world own ∧
      b.size = (x b.owner).size := by
  have howner := h b.owner
  cases hlife : s.part b.owner with
  | setUp calls =>
    rw [hlife] at howner
    exact absurd rfl (howner.heap b hb)
  | clear =>
    rw [hlife] at howner
    exact absurd rfl (howner.heap b hb)
  | alloc =>
    rw [hlife] at howner
    exact absurd rfl (howner.heap b hb)
  | destroyed =>
    rw [hlife] at howner
    exact absurd rfl (howner.heap b hb)
  | decode body =>
    rw [hlife] at howner
    rcases howner with ⟨base, own, howned, hexec⟩
    have heq := hb
    rw [howned.heap, List.mem_singleton] at heq
    have hbase : b.base = base := congrArg Block.base heq
    exact ⟨own, hbase ▸ howned, congrArg Block.size heq⟩

/-- A step that leaves the others undisturbed meets the condition. -/
theorem Undisturbed.meets {s : Class x} {choice : Option ℤ} {life life' : Life (x i).context}
    (h : ∀ i, Sound x i (s.part i) s.world) (hlife : s.part i = life)
    (hmoved : Moved x i choice s.world life life' w')
    (hundisturbed : Undisturbed x i s.world w') : Meets x i choice life s.world := by
  have hown := h i
  rw [hlife] at hown
  cases hmoved with
  | setUp calls => trivial
  | failed => trivial
  | ready => trivial
  | cleared =>
    intro b hb p hp
    exact (memset_eq_iff _ _ p).1 ((hundisturbed b hb (hown.heap b hb)).2.1 p hp)
  | refused hchoice => exact absurd hchoice
  | allocated base hchoice hC hF hfits =>
    intro _
    by_contra hheap
    rcases List.exists_mem_of_ne_nil _ hheap with ⟨b, hb⟩
    rcases sound_heap h hb with ⟨own, howned, hsize⟩
    -- The table leads into the new block, and it has led into the block `b`.
    have hzero := (hundisturbed b hb (hown.heap b hb)).2.1 0 howned.C_pos
    rw [howned.table 0 howned.C_pos] at hzero
    simp only [World.alloc, if_pos hC, planeAt_zero, add_zero] at hzero
    have hpos := (x i).size_pos hC hF
    have hpos' := (x b.owner).size_pos howned.C_pos howned.F_pos
    have hapart := hfits.2 b hb
    omega
  | called op k => trivial
  | freed r => trivial

omit [DecidableEq ι] [Zero α] in
theorem untouched_init (x : ι → Object α) (mem : ℤ → α) (i : ι) :
    Untouched i (Class.init x mem).world :=
  ⟨fun _ hb => absurd hb List.not_mem_nil, rfl, rfl, rfl, rfl⟩

/-- **What the objects rely on is kept by a step that meets the condition.** -/
theorem sound_step {l : ι × Option ℤ} {s s' : Class x}
    (h : ∀ i, Sound x i (s.part i) s.world) (hmeets : Meets x l.1 l.2 (s.part l.1) s.world)
    (hstep : System.step (move x) l s = some s') : ∀ i, Sound x i (s'.part i) s'.world := by
  refine System.step_rely (R := Sound x) (C := Meets x) ?own ?other h hmeets hstep
  case own =>
    intro i choice life w life' w' h hmeets hmove
    exact sound_own h hmeets (moved_of_move hmove)
  case other =>
    intro i j choice a life w life' w' hij h hj hmeets hmove
    exact sound_other hij h hj hmeets (moved_of_move hmove)

/-- **The condition is exact**, as long as every object has what it relies on. -/
theorem isolated_iff_meets {l : ι × Option ℤ} {s s' : Class x}
    (h : ∀ i, Sound x i (s.part i) s.world) (hstep : System.step (move x) l s = some s') :
    Isolated x l s s' ↔ Meets x l.1 l.2 (s.part l.1) s.world := by
  constructor
  · intro hisolated
    rcases System.step_eq_some_iff.1 hstep with ⟨life', w', hmove, rfl⟩
    exact hisolated.1.meets h rfl (moved_of_move hmove)
  · intro hmeets
    refine ⟨?_, fun i => (sound_step h hmeets hstep i).delivered⟩
    rcases System.step_eq_some_iff.1 hstep with ⟨life', w', hmove, rfl⟩
    intro b hb hne
    rcases hmeets.keeps (h l.1) (moved_of_move hmove) hb hne with ⟨hheap, hmem, htable⟩
    exact ⟨hheap ▸ hb, htable, fun a _ _ => congrFun hmem a⟩

/-- **When the objects of a class do not disturb each other**: in every step of a run, a buffer
is allocated only while no other one is in use, and `memset` clears no pointer in use. -/
theorem isolated_iff (x : ι → Object α) (mem : ℤ → α) (ls : List (ι × Option ℤ)) :
    System.Each (move x) (Isolated x) ls (Class.init x mem) ↔
      System.Each (move x) (fun l s _ => Meets x l.1 l.2 (s.part l.1) s.world) ls
        (Class.init x mem) := by
  refine System.each_congr (I := fun s : Class x => ∀ i, Sound x i (s.part i) s.world)
    ?_ ?_ ls ?_
  · intro l s s' h hstep
    exact isolated_iff_meets h hstep
  · intro l s s' h hstep hmeets
    exact sound_step h hmeets hstep
  · intro i
    exact untouched_init x mem i

/-- What every object has been given at the end of a run without disturbance. -/
theorem delivered_of_run {mem : ℤ → α} {ls : List (ι × Option ℤ)} {s : Class x}
    (h : System.Each (move x) (Isolated x) ls (Class.init x mem))
    (hrun : System.run (move x) ls (Class.init x mem) = some s) (i : ι) : Delivered x s i := by
  refine h.of_run (R := fun s => ∀ i, Delivered x s i) (fun l s s' h => h.2) ?_ hrun i
  intro i
  exact (untouched_init x mem i).delivered nofun nofun

end relies

/-! ## Two objects -/

/-- An object that converts one sample. -/
def oneSample (value : ℤ) : Object ℤ where
  context := monoContext
  setUp := 0
  fails := false
  events := [.accepted [⟨1, fun _ => 0, fun _ => value⟩]]
  handle _ := 0
  fresh _ := 0

/-- The first object converts the sample 5, the second one the sample 7. -/
def twoObjects (second : Bool) : Object ℤ := oneSample (if second then 7 else 5)

/-- The first object is run up to its pull, then the second one, and then the first one goes
on until it has been destroyed. -/
def overlapping : List (Bool × Option ℤ) :=
  (false, none) :: (false, none) :: (false, some 4096) :: List.replicate 4 (false, none) ++
    (true, none) :: (true, none) :: (true, some 8192) :: List.replicate 4 (true, none) ++
    List.replicate 6 (false, none)

/-- The first object gives its encoder the sample of the second one, and frees its block. -/
theorem not_isolated_twoObjects :
    (∃ s, System.run (move twoObjects) overlapping (Class.init twoObjects fun _ => 0) = some s ∧
      (s.world.heard false).map (fun f => f.mem 0) = [7] ∧
      (twoObjects false).frames.map (fun f => f.mem 0) = [5] ∧
      s.world.allocs false = [4096] ∧ s.world.frees false = [8192]) ∧
    ¬ System.Each (move twoObjects) (Isolated twoObjects) overlapping
      (Class.init twoObjects fun _ => 0) := by
  have hrun : (System.run (move twoObjects) overlapping (Class.init twoObjects fun _ => 0)).map
      (fun s => ((s.world.heard false).map (fun f => f.mem 0), s.world.allocs false,
        s.world.frees false)) = some ([7], [4096], [8192]) := by decide +kernel
  rcases Option.map_eq_some_iff.1 hrun with ⟨s, hs, hseen⟩
  simp only [Prod.mk.injEq] at hseen
  refine ⟨⟨s, hs, hseen.1, by decide +kernel, hseen.2⟩, ?_⟩
  intro hisolated
  have hfrees := (delivered_of_run hisolated hs false).frees
  rw [hseen.2.1, hseen.2.2] at hfrees
  exact absurd hfrees (by decide)

end AudioCrash.Audio
