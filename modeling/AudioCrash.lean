import AudioCrash.Lib.EditScript
import AudioCrash.Lib.Loop
import AudioCrash.Lib.Grid
import AudioCrash.Lib.RollingKey
import AudioCrash.Lib.KeyedMap
import AudioCrash.Lib.Segment
import AudioCrash.Lib.Script
import AudioCrash.Lib.Interleave
import AudioCrash.Lib.FirstLeast
import AudioCrash.Lib.FirstOrLast
import AudioCrash.Lib.Counters
import AudioCrash.Lib.Trace
import AudioCrash.EditPass.Table
import AudioCrash.EditPass.Replay
import AudioCrash.EditPass.Positions
import AudioCrash.Lib.EditMetric
import AudioCrash.EditPass.Metric
import AudioCrash.Bleu.Ngrams
import AudioCrash.Bleu.Precision
import AudioCrash.Bleu.Score
import AudioCrash.Bleu.References
import AudioCrash.Bleu.Orders
import AudioCrash.Bleu.Extremes
import AudioCrash.Audio.Frame
import AudioCrash.Audio.Cut
import AudioCrash.Audio.Wrapping
import AudioCrash.Audio.InCount
import AudioCrash.Audio.Tune
import AudioCrash.Audio.Pipeline
import AudioCrash.Audio.Chunks
import AudioCrash.Audio.Blocks
import AudioCrash.Audio.Planes
import AudioCrash.Audio.Layouts
import AudioCrash.Audio.Pointers
import AudioCrash.Audio.Draining
import AudioCrash.Audio.Encoding
import AudioCrash.Audio.Scaling
import AudioCrash.Audio.Histogram
import AudioCrash.Audio.MeanVolume
import AudioCrash.Audio.FloatBytes
import AudioCrash.Audio.Steps
import AudioCrash.Audio.Shared
import AudioCrash.Video.Thumbnail
import AudioCrash.Video.Served
import AudioCrash.Video.Matching
import AudioCrash.Video.Live
import AudioCrash.Video.Choice
import AudioCrash.Video.Counting
import AudioCrash.Video.Answers
import AudioCrash.Video.Threads
import AudioCrash.Video.Status
import AudioCrash.Video.Rotation
import AudioCrash.Lib.RefCount
import AudioCrash.Video.References
import AudioCrash.Audio.Release
import AudioCrash.Video.Release
import AudioCrash.Packets
import AudioCrash.Graph.Token
import AudioCrash.Graph.Parse
import AudioCrash.Graph.Pads
import AudioCrash.Graph.Chain
import AudioCrash.Graph.Dump
import AudioCrash.Lib.Extent
import AudioCrash.Swr.Convert
import AudioCrash.Swr.Fifo
import AudioCrash.Audio.Buffering
import AudioCrash.Lib.DoubleWord
import AudioCrash.Lib.Rounding
import AudioCrash.Time.Rescale
import AudioCrash.Lib.Bisect
import AudioCrash.Seek.Search
import AudioCrash.Seek.Index
import AudioCrash.Audio.Invariants
import AudioCrash.Audio.Timestamps
import AudioCrash.Audio.Protocol
import AudioCrash.Lib.Producer
import AudioCrash.Codec.Encode
import AudioCrash.Codec.Decode
import AudioCrash.Audio.Codecs
import AudioCrash.Audio.Transcode
