import Mqttv5.Guarantees.Acknowledging
import Mqttv5.Guarantees.Batching
import Mqttv5.Guarantees.Crash
import Mqttv5.Guarantees.Discarding
import Mqttv5.Guarantees.Draining
import Mqttv5.Guarantees.Expiring
import Mqttv5.Guarantees.Failover
import Mqttv5.Guarantees.FirstPut
import Mqttv5.Guarantees.GroupCommit
import Mqttv5.Guarantees.Matching
import Mqttv5.Guarantees.MemoryQueueing
import Mqttv5.Guarantees.Pinging
import Mqttv5.Guarantees.Publishing
import Mqttv5.Guarantees.Reauthenticating
import Mqttv5.Guarantees.Receiving
import Mqttv5.Guarantees.Sending
import Mqttv5.Guarantees.Stores
import Mqttv5.Guarantees.Wire.BodyReads
import Mqttv5.Guarantees.Wire.Ready
import Mqttv5.Guarantees.Wire.TopicText
