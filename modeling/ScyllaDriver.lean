import ScyllaDriver.Async.AwaitAll
import ScyllaDriver.Async.FutureNotifier
import ScyllaDriver.Async.FutureOutcome
import ScyllaDriver.Async.PollDelivery
import ScyllaDriver.Async.ReactorDrain
import ScyllaDriver.Async.ReactorLimit
import ScyllaDriver.Async.ReactorRevolt
import ScyllaDriver.Cluster.Borrowers
import ScyllaDriver.Cluster.KeyLaw
import ScyllaDriver.Cluster.KeySharing
import ScyllaDriver.DateTime.DateAndTime
import ScyllaDriver.DateTime.DurationText
import ScyllaDriver.Inet.AddressPrinter
import ScyllaDriver.Marshal.ClassNameForms
import ScyllaDriver.Marshal.ColumnTypeLaw
import ScyllaDriver.Numbers.DecimalDouble
import ScyllaDriver.Numbers.DecimalLong
import ScyllaDriver.Numbers.DecimalOrder
import ScyllaDriver.Numbers.DecimalReading
import ScyllaDriver.Numbers.DecimalRoundTrip
import ScyllaDriver.Numbers.IntegerDivision
import ScyllaDriver.Numbers.IntegerInit
import ScyllaDriver.Numbers.TwosComplement
import ScyllaDriver.Paging.ChainLaw
import ScyllaDriver.Paging.OneResponse
import ScyllaDriver.Registry.RegistrationLaw
import ScyllaDriver.Session.OptionIntegers
import ScyllaDriver.Values.HashCacheLaw
import ScyllaDriver.Values.Iteration
import ScyllaDriver.Values.OrderLaw
import ScyllaDriver.Values.SetAndMapLaw
import ScyllaDriver.Values.Storing
import ScyllaDriver.Values.TypeOrder
