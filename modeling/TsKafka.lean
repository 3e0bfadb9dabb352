import TsKafka.Library.WriterLog
import TsKafka.BasicProducer.Threads
import TsKafka.BasicConsumer.DoRead
import TsKafka.BasicProducer.ConcurrentPush
import TsKafka.BasicProducer.Delivery
import TsKafka.RoundTrip
import TsKafka.BasicConsumer.Lifecycle
import TsKafka.BasicConsumer.Replay
import TsKafka.BasicConsumer.Teardown
import TsKafka.BasicConsumer.Wait
import TsKafka.BasicConsumer.Assignment
import TsKafka.BasicConsumer.ReadLoop
import TsKafka.BasicProducer.Connect
import TsKafka.BasicProducer.Destruction
import TsKafka.BasicProducer.Lifecycle
import TsKafka.BasicProducer.PushLoop
import TsKafka.Pairing
import TsKafka.BasicConsumer.InitialOffsets
import TsKafka.BasicProducer.CancelToken
import TsKafka.BasicProducer.ConnectCalls
import TsKafka.BasicProducer.Polling
import TsKafka.Library.Coarsening
import TsKafka.TimeConversion
import TsKafka.Uninitialised
import TsKafka.BasicConsumer.Life
import TsKafka.BasicConsumer.LifeHistory
import TsKafka.BasicConsumer.Launching
import TsKafka.BasicConsumer.LifeCalls
import TsKafka.BasicConsumer.LifeFaults
import TsKafka.BasicConsumer.LifeSafety
import TsKafka.BasicProducer.Accounting
import TsKafka.BasicProducer.Reports
import TsKafka.BasicConsumer.ReaderThread
import TsKafka.BasicConsumer.WaitCalls
import TsKafka.BasicProducer.LifeCalls
import TsKafka.BasicProducer.LifeFaults
import TsKafka.BasicProducer.PushThreads
import TsKafka.Library.PartitionedLog
import TsKafka.Pipeline
import TsKafka.Library.LittleEndian
import TsKafka.SeriesTest
import TsKafka.ProdConsTest
import TsKafka.SetupErrors
