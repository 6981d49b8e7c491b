import AudioCrash.Audio.Release
import AudioCrash.Video.Release

/-!
# Every packet is released

The five programs read their input with `av_read_frame` in a loop, and share the slip that a
return from inside of that loop leaves the packet unreleased. A run of `AudioConvert`,
`AudioCut`, `AudioVolume` or `AudioGradient` is a run of a `Pipeline`.

## Main definitions

* `packetsReleased_iff` — when every packet is released, for all five programs.
-/

namespace AudioCrash

/-- **Every packet is released exactly once, before the next one is read or the function
returns, exactly when the run is left in the set-up or gets through the packet loop**: no call
fails there, and, for the thumbnails, no packet is rejected before all times are reached and the
frames to be filtered have been referred to. -/
theorem packetsReleased_iff {α : Type} (x : Audio.Context α) (leaves : Option Audio.SetUp)
    (events : List (Audio.Event α)) (mem : ℤ → α) (handle : ℕ → ℤ) (y : Video.Context)
    (fails : Option Video.SetUp) :
    (∀ r, Audio.runAll x leaves events mem handle = Flow.ret r →
      (Audio.PacketsReleased r.2.log ↔
        leaves ≠ none ∨ x.ReadsThrough events (Audio.State.init x mem handle))) ∧
    ∀ r, Video.runAll fails y = Flow.ret r →
      (Video.PacketsReleased r.2.log ↔ fails ≠ none ∨ y.ReadsThrough) := by
  constructor
  · intro r hr
    exact Audio.runAll_released_iff x leaves events mem handle hr
  · intro r hr
    exact Video.runAll_released_iff fails y hr

/-- One packet with a frame of one sample, and one thumbnail, when no call fails. -/
theorem packetsReleased_iff_healthy :
    (∃ r, Audio.runAll (Audio.Program.convert.context 1 1 1) none [.accepted [Audio.stereoFrame 1]]
        (fun _ => 0) (fun _ => 0) = Flow.ret r ∧ Audio.PacketsReleased r.2.log) ∧
      ∃ r, Video.runAll none (Video.oneTime Video.prompt) = Flow.ret r ∧
        Video.PacketsReleased r.2.log := by
  have haudio := Audio.Program.convert.context_healthy 1 1 1
  rcases Audio.run_eq_ret _ haudio le_rfl [.accepted [Audio.stereoFrame 1]] (fun _ => 0)
    (fun _ => 0) with ⟨s, hs⟩
  rcases Video.run_eq_ret (Video.oneTime Video.prompt) with ⟨r, hr⟩
  have hlate : ∀ es, (Video.oneTime Video.prompt).events = some es →
      (Video.oneTime Video.prompt).RejectsLate es := by
    intro es hes
    refine Or.inl ?_
    rw [← Option.some.inj hes]
    simp [Video.NoneRejected, Video.prompt]
  have hiff := packetsReleased_iff (Audio.Program.convert.context 1 1 1) none
    [.accepted [Audio.stereoFrame 1]] (fun _ => 0) (fun _ => 0) (Video.oneTime Video.prompt) none
  refine ⟨⟨(0, s), hs, (hiff.1 (0, s) hs).2 (Or.inr ?_)⟩, r, hr, (hiff.2 r hr).2 (Or.inr ?_)⟩
  · exact Audio.readsThrough_of_healthy _ haudio le_rfl _ _ _
  · exact Video.readsThrough_of_healthy Video.healthy_healthy hlate

/-- The resampler takes no samples. -/
def Audio.Program.refused (program : Audio.Program) : Audio.Context ℚ :=
  { program.context 1 1 1 with
    ffmpeg := { (program.context 1 1 1).ffmpeg with convertOk := fun _ => false } }

/-- A program holds the packet of the frame that the resampler refuses, and `VideoThubmnail` a
packet that the decoder rejects. -/
theorem not_packetsReleased_refused :
    (∃ r, Audio.runAll (Audio.Program.refused .convert) none [.accepted [Audio.stereoFrame 1]]
      (fun _ => 0) (fun _ => 0) = Flow.ret r ∧ r.1 = -18000 ∧ ¬ Audio.PacketsReleased r.2.log) ∧
    (∃ r, Audio.runAll (Audio.Program.refused .cut) none [.accepted [Audio.stereoFrame 1]]
      (fun _ => 0) (fun _ => 0) = Flow.ret r ∧ r.1 = -18000 ∧ ¬ Audio.PacketsReleased r.2.log) ∧
    (∃ r, Audio.runAll (Audio.Program.refused .volume) none [.accepted [Audio.stereoFrame 1]]
      (fun _ => 0) (fun _ => 0) = Flow.ret r ∧ r.1 = -18000 ∧ ¬ Audio.PacketsReleased r.2.log) ∧
    (∃ r, Audio.runAll (Audio.Program.refused .gradient) none [.accepted [Audio.stereoFrame 1]]
      (fun _ => 0) (fun _ => 0) = Flow.ret r ∧ r.1 = -18000 ∧ ¬ Audio.PacketsReleased r.2.log) ∧
    ∃ r, Video.runAll none (Video.oneTime [.rejected 0]) = Flow.ret r ∧ r.1 = -600 ∧
      ¬ Video.PacketsReleased r.2.log := by
  have hread : ¬ Audio.PacketsReleased ([] ++ [(.readFrame : Audio.Call ℚ)]) :=
    (Trace.releasedOnce_nil.acquire rfl).not_releasedOnce
  have haudio : ∀ program : Audio.Program, ∃ r, Audio.runAll program.refused none
      [.accepted [Audio.stereoFrame 1]] (fun _ => 0) (fun _ => 0) = Flow.ret r ∧ r.1 = -18000 ∧
        ¬ Audio.PacketsReleased r.2.log := by
    intro program
    exact ⟨_, rfl, rfl, hread⟩
  have hrejected : ¬ Video.PacketsReleased ([] ++ [.readFrame]) :=
    (Trace.releasedOnce_nil.acquire rfl).not_releasedOnce
  exact ⟨haudio .convert, haudio .cut, haudio .volume, haudio .gradient, _, rfl, rfl, hrejected⟩

end AudioCrash
