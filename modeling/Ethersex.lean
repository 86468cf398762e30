import Ethersex.Library.Biphase
import Ethersex.Library.Loop
import Ethersex.Library.Terminal
import Ethersex.Library.Bytes
import Ethersex.Library.NextFit
import Ethersex.Library.CString
import Ethersex.Library.LinkedList
import Ethersex.Library.Chain
import Ethersex.Library.Walks
import Ethersex.Library.Extents
import Ethersex.Library.Blocks
import Ethersex.Library.Ansi
import Ethersex.Library.Decimal
import Ethersex.Library.Lines
import Ethersex.Library.TagLength
import Ethersex.Library.Ring
import Ethersex.Library.Search
import Ethersex.Library.Handles
import Ethersex.Library.Ciphers
import Ethersex.Mcuf.Model
import Ethersex.Mcuf.Safety
import Ethersex.Ps2.Model
import Ethersex.Ps2.Modifiers
import Ethersex.Rc5.Model
import Ethersex.Rc5.Decoding
import Ethersex.Rc5.Noise
import Ethersex.Rc5.Queue
import Ethersex.Tty.Model
import Ethersex.Tty.Effect
import Ethersex.Tty.Scrolling
import Ethersex.Tty.Semantics
import Ethersex.Tty.Calls
import Ethersex.Tty.Rectangles
import Ethersex.Tty.Input
import Ethersex.Vt100.Stream
import Ethersex.Lcd.Hd44780
import Ethersex.Dataflash.Device
import Ethersex.Dataflash.Fs
import Ethersex.Dataflash.Volume
import Ethersex.Dataflash.Allocation
import Ethersex.Dataflash.Commit
import Ethersex.Dataflash.Directory
import Ethersex.Dataflash.Boot
import Ethersex.Dataflash.Names
import Ethersex.Dataflash.Operations
import Ethersex.Dataflash.Safety
import Ethersex.Dataflash.Capacity
import Ethersex.Dataflash.Lookup
import Ethersex.Dataflash.Format
import Ethersex.Dataflash.Mounting
import Ethersex.Dataflash.Store
import Ethersex.Dataflash.Reading
import Ethersex.Dataflash.Writing
import Ethersex.Dataflash.Truncating
import Ethersex.Dataflash.Files
import Ethersex.Dataflash.Filling
import Ethersex.Dataflash.Laws
import Ethersex.Clock.Model
import Ethersex.Clock.Corrections
import Ethersex.Clock.TickRate
import Ethersex.Clock.Dates
import Ethersex.Library.Calendar
import Ethersex.Clock.Calendar
import Ethersex.Clock.SummerTime
import Ethersex.Clock.Timestamps
import Ethersex.Dcf77.Model
import Ethersex.Dcf77.Frames
import Ethersex.Dcf77.Decoding
import Ethersex.Dcf77.Resync
import Ethersex.Cron.Model
import Ethersex.Cron.Jobs
import Ethersex.Cron.Sweep
import Ethersex.Cron.Edits
import Ethersex.Cron.Periodic
import Ethersex.Cron.Runs
import Ethersex.Cron.Due
import Ethersex.Cron.Calls
import Ethersex.Cron.Coexistence
import Ethersex.Eeprom.Model
import Ethersex.Eeprom.FreePages
import Ethersex.Eeprom.Layout
import Ethersex.Eeprom.Walks
import Ethersex.Eeprom.Edits
import Ethersex.Eeprom.Writing
import Ethersex.Eeprom.Runs
import Ethersex.Eeprom.Laws
import Ethersex.Eeprom.Reading
import Ethersex.Eeprom.Creating
import Ethersex.Vfs.Seek
import Ethersex.Vfs.Sequential
import Ethersex.Uip.Connection
import Ethersex.Httpd.Body
import Ethersex.Httpd.Auth
import Ethersex.Httpd.Authorization
import Ethersex.Httpd.Command
import Ethersex.Tftp.Model
import Ethersex.Tftp.Download
import Ethersex.Tftp.Upload
import Ethersex.Tftp.Handles
import Ethersex.Tftp.Bootload
import Ethersex.Vfs.Inline
import Ethersex.Ecmd.Segments
import Ethersex.Ecmd.Aliases
import Ethersex.Ecmd.Scripting
import Ethersex.Vt100.Telnet
import Ethersex.Openvpn.Model
import Ethersex.Openvpn.RoundTrip
import Ethersex.Openvpn.Replay
import Ethersex.Crypto.Cast5
import Ethersex.Crypto.Md5
import Ethersex.Openvpn.Hmac
import Ethersex.Openvpn.Tunnel
import Ethersex.Arp.Model
import Ethersex.Arp.Cache
import Ethersex.Library.SequenceNumbers
import Ethersex.Library.Slots
import Ethersex.Library.Framing
import Ethersex.Zbus.Model
import Ethersex.Zbus.Transfer
import Ethersex.Zbus.Reception
import Ethersex.Modbus.Model
import Ethersex.Modbus.Requests
import Ethersex.Modbus.Replies
import Ethersex.Modbus.Receiver
import Ethersex.Library.Enumeration
import Ethersex.Onewire.Model
import Ethersex.Onewire.Search
import Ethersex.Onewire.Listing
import Ethersex.Onewire.Temperature
import Ethersex.Stella.Model
import Ethersex.Stella.Table
import Ethersex.Stella.Fading
import Ethersex.Stella.Rounds
import Ethersex.Stella.Handshake
import Ethersex.Rfm12.Model
import Ethersex.Rfm12.Reception
import Ethersex.Enc28j60.Model
import Ethersex.Enc28j60.Reception
import Ethersex.Syslog.Model
import Ethersex.Syslog.Delivery
import Ethersex.Syslog.Order
import Ethersex.Ecmd.Usart
import Ethersex.Ecmd.UsartLines
import Ethersex.Library.Xml
import Ethersex.Library.Dns
import Ethersex.Library.Identifiers
import Ethersex.Library.Transmitter
import Ethersex.Library.OnesComplement
import Ethersex.Yport.Model
import Ethersex.Yport.Transmission
import Ethersex.Yport.Reception
import Ethersex.I2c.Model
import Ethersex.I2c.Requests
import Ethersex.Bootp.Options
import Ethersex.Mdns.Model
import Ethersex.Mdns.Responses
import Ethersex.Mdns.Parsing
import Ethersex.Mdns.Matching
import Ethersex.Snmp.Model
import Ethersex.Snmp.Walk
import Ethersex.Snmp.Parsing
import Ethersex.Snmp.Answers
import Ethersex.Jabber.Model
import Ethersex.Jabber.Buddies
import Ethersex.Fs20.Model
import Ethersex.Fs20.Reception
import Ethersex.Dmx.Model
import Ethersex.Dmx.Artnet
import Ethersex.UsbNet.Model
import Ethersex.UsbNet.Packets
import Ethersex.Uip.Active
import Ethersex.Uip.Tcp
import Ethersex.Uip.Streams
import Ethersex.Uip.Sending
import Ethersex.Uip.Delivery
import Ethersex.Uip.Patience
import Ethersex.Uip.RouterAdvertisement
import Ethersex.Uip.Forwarding
import Ethersex.EcmdSender.Callbacks
import Ethersex.Msr1.Records
import Ethersex.I2cSlave.Blocks
import Ethersex.Ask.Model
import Ethersex.Ask.Samples
import Ethersex.Ask.Bytes
import Ethersex.Ask.Air
import Ethersex.Ask.Frames
import Ethersex.Ask.Tevion
import Ethersex.SdReader.Model
import Ethersex.SdReader.Directories
import Ethersex.Library.Cached
import Ethersex.SdReader.Raw
