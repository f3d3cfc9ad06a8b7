import AlmondAndroid.Library.Machine
import AlmondAndroid.Library.Table
import AlmondAndroid.Library.Mailbox
import AlmondAndroid.Library.Base64
import AlmondAndroid.Library.Json
import AlmondAndroid.Library.JsonNumber
import AlmondAndroid.Library.JsonPrefix
import AlmondAndroid.Library.Binary32
import AlmondAndroid.Library.PromiseChain
import AlmondAndroid.Library.FileTree
import AlmondAndroid.Library.Replace
import AlmondAndroid.Library.PlainObject
import AlmondAndroid.Library.Matching
import AlmondAndroid.Library.Utf16
import AlmondAndroid.Library.UrlQuery
import AlmondAndroid.Bridge.Values
import AlmondAndroid.Bridge.Marshal
import AlmondAndroid.Bridge.OrgJson
import AlmondAndroid.Bridge.PackagedNodeCall
import AlmondAndroid.Bridge.CallQueue
import AlmondAndroid.Bridge.NativeCallQueue
import AlmondAndroid.Bridge.AssetReads
import AlmondAndroid.Bridge.Answers
import AlmondAndroid.Bridge.JavaInvoker
import AlmondAndroid.Bridge.Settlements
import AlmondAndroid.Bridge.CallRecords
import AlmondAndroid.Bridge.Agreement
import AlmondAndroid.Bridge.JavaApi
import AlmondAndroid.Bridge.EventLoop
import AlmondAndroid.Assistant.Message
import AlmondAndroid.Assistant.HistoryModel
import AlmondAndroid.Assistant.Dispatcher
import AlmondAndroid.Assistant.Passwords
import AlmondAndroid.Assistant.StaleChoices
import AlmondAndroid.Assistant.Delivery
import AlmondAndroid.App.Main
import AlmondAndroid.App.EarlyCalls
import AlmondAndroid.App.EarlyError
import AlmondAndroid.App.Conversation
import AlmondAndroid.App.Preferences
import AlmondAndroid.App.Streams
import AlmondAndroid.App.StreamDelivery
import AlmondAndroid.App.StreamPool
import AlmondAndroid.App.StreamDeadlock
import AlmondAndroid.App.ImageStreams
import AlmondAndroid.App.Images
import AlmondAndroid.App.ImageHandles
import AlmondAndroid.App.Pairing
import AlmondAndroid.App.UuidReads
import AlmondAndroid.App.Discovery
import AlmondAndroid.App.AudioRouter
import AlmondAndroid.App.ProxyWait
import AlmondAndroid.App.Unzipper
import AlmondAndroid.App.Extraction
import AlmondAndroid.App.JsonDatagramSocket
import AlmondAndroid.App.SmtSolver
import AlmondAndroid.App.Locales
import AlmondAndroid.App.Thingpedia
import AlmondAndroid.App.Commands
import AlmondAndroid.App.Contacts
import AlmondAndroid.App.PictureDownload
import AlmondAndroid.Ui.MainServiceConnection
import AlmondAndroid.Ui.AnswersKept
import AlmondAndroid.Ui.OAuthActivity
import AlmondAndroid.Ui.Tasks
import AlmondAndroid.Ui.GenericObjectCache
import AlmondAndroid.Ui.CacheEviction
import AlmondAndroid.Ui.LoadImageTask
import AlmondAndroid.Ui.SlotFilling
import AlmondAndroid.Ui.SlotActivation
import AlmondAndroid.Ui.SlotForm
import AlmondAndroid.Ui.DeviceForm
import AlmondAndroid.Ui.HistoryAdapter
import AlmondAndroid.Ui.Settings
import AlmondAndroid.Storage.Database
import AlmondAndroid.Storage.StatementOrder
import AlmondAndroid.Storage.WakeUp
import AlmondAndroid.Storage.EachRows
import AlmondAndroid.Storage.OrClause
import AlmondAndroid.Storage.Record
import AlmondAndroid.Storage.RecordCompare
