import PppAmb.HttpClient
import PppAmb.Response
import PppAmb.Wire
import PppAmb.JsonReader
import PppAmb.Auth
import PppAmb.Outcomes
import PppAmb.AuthContract
import PppAmb.Rtdb
import PppAmb.TokenInUse
import PppAmb.CSearch
import PppAmb.Cpsi
import PppAmb.CpsiAccepted
import PppAmb.CFormat
import PppAmb.SensorTask
import PppAmb.Sampling
import PppAmb.Retention
import PppAmb.Records
import PppAmb.JsonText
import PppAmb.CutReader
import PppAmb.RestRequest
import PppAmb.TrimBatch
import PppAmb.Sensors
import PppAmb.Shim
import PppAmb.Writes
import PppAmb.PutCondition
import PppAmb.PutData
import PppAmb.PostData
import PppAmb.Terminated
import PppAmb.CpsiRoundTrip
import PppAmb.CpsiFilter
import PppAmb.KeyOrder
import PppAmb.Sen5xFrame
import PppAmb.PolyCode
import PppAmb.Sen5xCrc
import PppAmb.SensorExits
import PppAmb.SensorsInit
import PppAmb.Shallow
import PppAmb.TrimDays
import PppAmb.City
import PppAmb.Accumulators
import PppAmb.CityAttempts
import PppAmb.CityText
import PppAmb.MemberSearch
import PppAmb.Cereg
import PppAmb.CDigits
import PppAmb.JsonNumbers
import PppAmb.CpsiCut
import PppAmb.CellPayload
import PppAmb.JsonMeaning
import PppAmb.RequestBodies
import PppAmb.JsonUnique
import PppAmb.RecordText
import PppAmb.ClientInvariant
import PppAmb.Timeouts
import PppAmb.SensorLoop
import PppAmb.Backend
import PppAmb.Refinement
import PppAmb.WholeReader
import PppAmb.FastWriter
import PppAmb.WrittenValues
import PppAmb.Documents
import PppAmb.Program
import PppAmb.ModemStart
import PppAmb.AppMain
import PppAmb.CityCalls
import PppAmb.BootProtocol
import PppAmb.IpEvents
