import CommonCode.Crc.Detection
import CommonCode.Sha256.Code
import CommonCode.Sha256.Fips
import CommonCode.Sha256.Padding
import CommonCode.Sha256.Correctness
import CommonCode.Lib.FourBranch
import CommonCode.Sm4.Code
import CommonCode.Sm4.Standard
import CommonCode.Sm4.Refinement
import CommonCode.Sm4.Modes
import CommonCode.Lib.CString
import CommonCode.Http.Packet
import CommonCode.Http.Receive
import CommonCode.Http.Request
import CommonCode.Http.Result
import CommonCode.Http.Server
import CommonCode.Select.Loop
import CommonCode.Select.Registration
import CommonCode.Select.SelectServer
import CommonCode.Threads.TcpServer
import CommonCode.Queue.ImageQueue
import CommonCode.Queue.Ownership
import CommonCode.Queue.Wakeup
import CommonCode.Audio.Pipeline
import CommonCode.Transfer.FileTransfer
import CommonCode.Audio.Exclusion
import CommonCode.Audio.Lossless
import CommonCode.Ftps.Client
import CommonCode.Ftps.Completion
import CommonCode.Ftps.Session
import CommonCode.Json.Parse
import CommonCode.Json.RoundTrip
import CommonCode.Json.Builders
import CommonCode.Select.ClientTable
import CommonCode.Sha256.Portability
import CommonCode.Http.Bounds
import CommonCode.Http.Fields
import CommonCode.Http.Framing
import CommonCode.Json.Validity
import CommonCode.Http.Callback
import CommonCode.Http.CallbackSize
import CommonCode.Http.Tables
import CommonCode.Lib.Quoted
import CommonCode.Http.Lists
import CommonCode.Convert.DataFormat
import CommonCode.Convert.Decoding
import CommonCode.Convert.Encoding
import CommonCode.Queue.HeadOfLine
import CommonCode.Queue.Redundant
import CommonCode.Http.Popen
import CommonCode.Transfer.Termination
import CommonCode.Ftps.Host
import CommonCode.Json.Reuse
import CommonCode.Lib.Sscanf
import CommonCode.Ftps.Passive
import CommonCode.Crc.Reflected
import CommonCode.Crc.Parity
import CommonCode.Lib.Chaining
import CommonCode.Sm4.Streaming
import CommonCode.Lib.Memory
import CommonCode.Sm4.InPlace
import CommonCode.Sha256.SuffixFree
import CommonCode.Threads.Semaphore
import CommonCode.Http.Areas
import CommonCode.IniParser.Dictionary
import CommonCode.Lib.Holding
import CommonCode.Json.Linked
import CommonCode.Json.Trees
import CommonCode.Json.Ownership
import CommonCode.Json.Duplicate
import CommonCode.Json.Reading
import CommonCode.Json.Minify
import CommonCode.Json.Acceptance
import CommonCode.Sm4.Propagation
import CommonCode.Crc.Distance
import CommonCode.IniParser.Line
import CommonCode.Json.WholeStrings
