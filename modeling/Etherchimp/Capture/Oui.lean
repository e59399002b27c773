import Etherchimp.Graph.SearchNodes

/-!
# Who made the device

The first three bytes of a MAC are assigned to a maker by the IEEE registry, and from
the maker's name a coarse device category is guessed. The registry comes with the
program as a text of "PREFIX<TAB>Vendor" lines.
-/

namespace Etherchimp

/-- One line of the registry; a line whose prefix is not six bytes long is skipped. -/
def loadOUILine (ouiMap : KeyedMap String String) (line : List Char) : KeyedMap String String :=
  let key := String.ofList (line.takeWhile (· ≠ '\t'))
  match line.dropWhile (· ≠ '\t') with
  | _ :: vendor => if key.utf8ByteSize = 6 then ouiMap.insert key (String.ofList vendor) else ouiMap
  | [] => ouiMap

/-- The registry by prefix. -/
def loadOUI (ouiData : String) : KeyedMap String String :=
  (ouiData.toList.splitOn '\n').foldl loadOUILine ∅

/-- A hex digit in upper case; what separates the octets is none. -/
def upperHex (c : Char) : Option Char :=
  if ('0' ≤ c ∧ c ≤ '9') ∨ ('A' ≤ c ∧ c ≤ 'F') then some c
  else if 'a' ≤ c ∧ c ≤ 'f' then some c.toUpper
  else none

/-- The first three octets of a MAC, empty when there are fewer. -/
def ouiPrefix (mac : String) : String :=
  let digits := (mac.toList.filterMap upperHex).take 6
  if digits.length < 6 then "" else String.ofList digits

/-- The value of an upper-case hex digit. -/
def hexDigit (c : Char) : Nat := if c ≤ '9' then c.toNat - '0'.toNat else c.toNat - 'A'.toNat + 10

/-- The locally-administered bit of the first octet. -/
def isLocallyAdministered (mac : String) : Bool :=
  match (ouiPrefix mac).toList with
  | a :: b :: _ => (hexDigit a * 16 + hexDigit b) / 2 % 2 = 1
  | _ => false

/-- The registered maker, empty when there is none. -/
def vendorForMAC (ouiData mac : String) : String :=
  let key := ouiPrefix mac
  if key = "" then "" else ((loadOUI ouiData).lookup key).getD ""

/-- Parts of a maker's name and the device category each implies; the first match wins. -/
def deviceClassRules : List (String × String) :=
  [("rockwell", "PLC / ICS"), ("allen-bradley", "PLC / ICS"), ("allen bradley", "PLC / ICS"),
    ("schneider", "PLC / ICS"), ("siemens", "PLC / ICS"), ("phoenix contact", "PLC / ICS"),
    ("beckhoff", "PLC / ICS"), ("omron", "PLC / ICS"), ("mitsubishi electric", "PLC / ICS"),
    ("yokogawa", "PLC / ICS"), ("yaskawa", "PLC / ICS"), ("wago", "PLC / ICS"),
    ("b&r industrial", "PLC / ICS"), ("bachmann", "PLC / ICS"), ("pilz", "PLC / ICS"),
    ("opto 22", "PLC / ICS"), ("red lion", "PLC / ICS"), ("turck", "PLC / ICS"),
    ("pepperl", "PLC / ICS"), ("endress", "PLC / ICS"), ("sick ag", "PLC / ICS"),
    ("fanuc", "PLC / ICS"), ("kuka", "PLC / ICS"), ("emerson", "PLC / ICS"),
    ("rockwell automation", "PLC / ICS"), ("hms industrial", "PLC / ICS"),
    ("honeywell", "PLC / ICS"), ("abb", "PLC / ICS"), ("delta electronics", "PLC / ICS"),
    ("moxa", "Industrial network"), ("hirschmann", "Industrial network"),
    ("advantech", "Industrial network"), ("westermo", "Industrial network"),
    ("hikvision", "IP camera"), ("dahua", "IP camera"), ("axis communications", "IP camera"),
    ("hanwha", "IP camera"), ("amcrest", "IP camera"), ("reolink", "IP camera"),
    ("wyze", "IP camera"), ("polycom", "VoIP phone"), ("yealink", "VoIP phone"),
    ("grandstream", "VoIP phone"), ("avaya", "VoIP phone"), ("snom", "VoIP phone"),
    ("brother", "Printer"), ("canon", "Printer"), ("seiko epson", "Printer"),
    ("lexmark", "Printer"), ("xerox", "Printer"), ("kyocera", "Printer"), ("ricoh", "Printer"),
    ("zebra tech", "Printer"), ("cisco-linksys", "Network gear"), ("linksys", "Network gear"),
    ("netgear", "Network gear"), ("tp-link", "Network gear"), ("d-link", "Network gear"),
    ("ubiquiti", "Network gear"), ("mikrotik", "Network gear"), ("aruba", "Network gear"),
    ("juniper", "Network gear"), ("ruckus", "Network gear"), ("zyxel", "Network gear"),
    ("arris", "Network gear"), ("technicolor", "Network gear"), ("sagemcom", "Network gear"),
    ("actiontec", "Network gear"), ("fortinet", "Network gear"), ("palo alto", "Network gear"),
    ("extreme networks", "Network gear"), ("meraki", "Network gear"), ("cisco", "Network gear"),
    ("vmware", "Virtual machine"), ("xensource", "Virtual machine"),
    ("parallels", "Virtual machine"), ("proxmox", "Virtual machine"),
    ("nutanix", "Virtual machine"), ("openstack", "Virtual machine"),
    ("lg electronics", "TV / media"), ("vizio", "TV / media"), ("roku", "TV / media"),
    ("tcl", "TV / media"), ("hisense", "TV / media"), ("sonos", "TV / media"),
    ("sony", "TV / media"), ("sharp", "TV / media"), ("espressif", "IoT / embedded"),
    ("raspberry pi", "IoT / embedded"), ("nordic semiconductor", "IoT / embedded"),
    ("texas instruments", "IoT / embedded"), ("tuya", "IoT / embedded"),
    ("nest labs", "IoT / embedded"), ("ring", "IoT / embedded"), ("ecobee", "IoT / embedded"),
    ("particle", "IoT / embedded"), ("apple", "Computer / mobile"), ("dell", "Computer / mobile"),
    ("lenovo", "Computer / mobile"), ("hewlett packard", "Computer / mobile"),
    ("hp inc", "Computer / mobile"), ("intel corporate", "Computer / mobile"),
    ("micro-star", "Computer / mobile"), ("asustek", "Computer / mobile"),
    ("acer", "Computer / mobile"), ("microsoft", "Computer / mobile"),
    ("samsung", "Computer / mobile"), ("google", "Computer / mobile"),
    ("amazon", "Computer / mobile"), ("xiaomi", "Computer / mobile"),
    ("huawei", "Computer / mobile")]

variable [RuneCase]

def deviceClassForVendor (vendor : String) : String :=
  ((deviceClassRules.find? fun r => containsString (toLower vendor) r.1).map (·.2)).getD ""

/-- The maker of a MAC and its device category. -/
def identifyMAC (ouiData mac : String) : String × String :=
  let vendor := vendorForMAC ouiData mac
  if vendor = "" then (if isLocallyAdministered mac then ("", "Private/randomized MAC") else ("", ""))
  else (vendor, deviceClassForVendor vendor)

end Etherchimp
