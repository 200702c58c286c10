import LoRaGPS.Reconcile
import LoRaGPS.Redelivery
import LoRaGPS.HistoryOrder
import LoRaGPS.ManifestPages
import LoRaGPS.PacketFormat
import LoRaGPS.ShortPackets
import LoRaGPS.WebPages
import LoRaGPS.TextMessage
import LoRaGPS.Schedule
import LoRaGPS.Provenance
import LoRaGPS.Blocks
import LoRaGPS.Boards
import LoRaGPS.FloodWalks
import LoRaGPS.Storms
import LoRaGPS.Convergence
import LoRaGPS.Site
import LoRaGPS.ForeignPackets
import LoRaGPS.ManifestFleet
import LoRaGPS.ListeningWindow
import LoRaGPS.TextFleet
import LoRaGPS.Diagnostic
import LoRaGPS.SilentGps
import LoRaGPS.Timestamps
import LoRaGPS.Chronology
import LoRaGPS.Restarts
import LoRaGPS.SenderRuns
