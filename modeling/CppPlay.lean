import CppPlay.FixAdapter.NetworkOrder
import CppPlay.FixAdapter.Codec
import CppPlay.FixAdapter.Containment
import CppPlay.FixAdapter.SessionsInfo
import CppPlay.FixAdapter.NotifyIsolation
import CppPlay.FixAdapter.TsReader
import CppPlay.FixAdapter.TsWriter
import CppPlay.FixAdapter.BufferConservation
import CppPlay.FixAdapter.InboundBound
import CppPlay.FixAdapter.TypedAccess
import CppPlay.IntegralString.WindowEncoding
import CppPlay.IntegralString.AlphaNumeric
import CppPlay.IntegralString.BranchAgreement
import CppPlay.Lib.Threads
import CppPlay.MultiThread.SpinTicketMutex
import CppPlay.MultiThread.SpinlockMutex
import CppPlay.MultiThread.HierarchicalMutex
import CppPlay.MultiThread.LockFreePool
import CppPlay.MultiThread.MpscQueue
import CppPlay.MultiThread.SemaphorePool
import CppPlay.MultiThread.StopTokenPool
import CppPlay.DataProvider.Connection
import CppPlay.Calendar.CalendarIteration
import CppPlay.Lib.Alignment
import CppPlay.Templates.ArrayMap
import CppPlay.Templates.TupleOrder
import CppPlay.Diff.MesageParser
import CppPlay.MultiThread.FutureOnPoolChain
import CppPlay.Diff.OrderedThreadPool
import CppPlay.DataProvider.ConnectionCallbacks
import CppPlay.Proxygen.RequestHandlerImpl
import CppPlay.Proxygen.HandlerLifetime
import CppPlay.IntegralString.OrderPreservation
import CppPlay.IntegralString.ReservedValue
import CppPlay.IntegralString.ArbitraryBytes
import CppPlay.Diff.ShortString
import CppPlay.Diff.ShortStringConstructors
import CppPlay.FixAdapter.FailedAppend
import CppPlay.FixAdapter.OrderEncoding
import CppPlay.FixAdapter.FieldOrder
import CppPlay.FixAdapter.FieldActionMap
import CppPlay.FixAdapter.TsConnector
import CppPlay.Diff.StringWrapper
import CppPlay.Diff.Options
import CppPlay.Templates.UniqueTuple
import CppPlay.DataProvider.SyncClient
import CppPlay.Proxygen.ResponseEvents
import CppPlay.Proxygen.ConnectionLimit
import CppPlay.Proxygen.RequestCounter
import CppPlay.Lib.LinkedList
import CppPlay.Proxygen.RatioSampling
import CppPlay.Proxygen.TimeoutCount
import CppPlay.MultiThread.MpscHandshake
import CppPlay.MultiThread.SlotLifetimes
import CppPlay.MultiThread.ThreadPool3
import CppPlay.MultiThread.LockFreePoolDeleter
import CppPlay.MultiThread.SharedMutexCache
import CppPlay.MultiThread.Future
import CppPlay.MultiThread.LockFreeStack
import CppPlay.MultiThread.ThreadTimer
import CppPlay.IntegralString.CompileTimeChecks
import CppPlay.FixAdapter.ParseProgress
import CppPlay.MultiThread.DataQueue
import CppPlay.Diff.WatermarkMessageQueue
import CppPlay.MultiThread.HybridQueue
import CppPlay.MultiThread.Actor
import CppPlay.Diff.TimerStop
import CppPlay.MultiThread.MpmcPeek
import CppPlay.Proxygen.ZlibServerFilter
import CppPlay.Diff.CopyOnWrite
import CppPlay.MultiThread.ConditionVariables
import CppPlay.FixAdapter.RequestPath
import CppPlay.DataProvider.Server
import CppPlay.MultiThread.MpmcQueuePack
import CppPlay.MultiThread.PointerMpmcQueue
import CppPlay.DataProvider.EchoServer
import CppPlay.MultiThread.OrderedFuture
