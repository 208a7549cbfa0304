import UserVault.Disk.Errno
import UserVault.Net.Address

/-!
# The network of a machine

What decides whether a process can listen at an address or connect to one: the addresses of the
interfaces that are up, and who listens already.
-/

namespace UserVault.Net

open Disk (Errno)

structure Network where
  /-- The addresses of the interfaces that are up. -/
  interfaces : List Host := []
  /-- The zones of the machine; its own is always there. -/
  zones : List UInt32 := [1]
  listeners : List Address := []
  /-- Whether the process may listen at the ports that are kept for the system. -/
  privileged : Bool := false
  deriving DecidableEq, Repr

/-- The address of the old kind that one of the new kind stands for, if it does. -/
def Host.plain : Host → Host
  | .v6 bits => if bits.toNat >>> 32 = 0xFFFF then .v4 (bits.truncate 32) else .v6 bits
  | .v4 bits => .v4 bits

/-- Whether a host stands for every address of its kind. -/
def Host.isAny : Host → Bool
  | .v4 bits => bits = 0
  | .v6 bits => bits = 0

/-- Whether who listens at one host is reached at another.  All addresses of the new kind
together take in those of the old kind. -/
def Host.covers : Host → Host → Bool
  | .v4 a, .v4 b => a = 0 ∨ a = b
  | .v6 a, .v6 b => a = 0 ∨ a = b
  | .v6 a, .v4 _ => a = 0
  | .v4 _, .v6 _ => false

/-- Whether a host is a group of machines, in the new kind of addresses. -/
def Host.isGroup : Host → Bool
  | .v4 _ => false
  | .v6 bits => bits.toNat >>> 120 = 0xFF

/-- Whether a host means something only in a zone. -/
def Host.isZoned : Host → Bool
  | .v4 _ => false
  | .v6 bits => bits.toNat >>> 118 = 0xFE80 >>> 6

/-- Whether a port is kept for the system. -/
def isReserved (port : UInt16) : Bool := 0 < port ∧ port < 1024

namespace Network

/-- Whether the machine lets a process take an address.  Without any interface there is no table
of the machine's addresses, and an address of the old kind is taken as it is. -/
def grants (n : Network) (host : Host) : Bool :=
  host.isAny || n.interfaces.contains host ||
    match host.plain with
    | .v4 _ => n.interfaces.isEmpty
    | .v6 _ => false

/-- Whether two listeners cannot both be there. -/
def clash (a b : Address) : Bool :=
  a.port = b.port ∧ (a.host.plain.covers b.host.plain ∨ b.host.plain.covers a.host.plain)

/-- The ports that are given to those who ask for none. -/
def freePorts : List UInt16 := (List.range 28232).map fun n => UInt16.ofNat (32768 + n)

/-- The address with a port of its own, if it asks for none: one that no listener has. -/
def withPort (n : Network) (a : Address) : Option Address :=
  if a.port ≠ 0 then some a
  else (freePorts.find? fun port => n.listeners.all (·.port ≠ port)).map fun port => { a with port }

/-- Why an address cannot be had, whoever has which port. -/
def refusal? (n : Network) (a : Address) : Option Errno :=
  let reserved := isReserved a.port ∧ ¬n.privileged
  match a.host with
  | .v4 _ =>
    if !n.grants a.host then some .addressNotAvailable
    else if reserved then some .accessDenied
    else none
  | .v6 _ =>
    if a.host.isGroup then some .invalidArgument
    else if reserved then some .accessDenied
    else if a.host.isZoned ∧ a.zone = 0 then some .invalidArgument
    else if a.host.isZoned ∧ ¬n.zones.contains a.zone then some .noDevice
    else if !n.grants a.host then some .addressNotAvailable
    else none

/-- Listens at an address. -/
def listen (n : Network) (a : Address) : Except Errno (Address × Network) :=
  match n.refusal? a with
  | some e => .error e
  | none =>
    match n.withPort a with
    | none => .error .addressInUse
    | some a =>
      if n.listeners.any (clash a) then .error .addressInUse
      else .ok (a, { n with listeners := a :: n.listeners })

/-- Connects to an address, which must be one of the machine's own with somebody listening. -/
def connect (n : Network) (a : Address) : Except Errno Unit :=
  if !n.interfaces.contains a.host then .error .networkUnreachable
  else if n.listeners.any fun l => l.port = a.port ∧ l.host.covers a.host then .ok ()
  else .error .connectionRefused

end Network

end UserVault.Net
