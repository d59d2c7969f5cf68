import RealmFormal.Go.Bytes

/-!
# DNS messages

The messages and constants of `github.com/miekg/dns`. What this package computes is
not modelled: its functions are parameters, and `Package.Documented` is what it says
about the replies that it makes.
-/

namespace Go.Dns
set_option autoImplicit false

structure Question where
  name : Bytes
  qtype : UInt16
  qclass : UInt16
  deriving DecidableEq

/-- A resource record: its header and its data. -/
structure Record where
  name : Bytes
  rrtype : UInt16
  rrclass : UInt16
  ttl : UInt32
  data : Bytes
  deriving DecidableEq

structure Msg where
  id : UInt16
  response : Bool
  opcode : Int
  authoritative : Bool
  truncated : Bool
  recursionDesired : Bool
  recursionAvailable : Bool
  zero : Bool
  authenticatedData : Bool
  checkingDisabled : Bool
  rcode : Int
  question : List Question
  answer : List Record
  ns : List Record
  extra : List Record
  deriving DecidableEq

def opcodeQuery : Int := 0

def classINET : UInt16 := 1

def typeA : UInt16 := 1

def typeAAAA : UInt16 := 28

def rcodeSuccess : Int := 0

def rcodeFormatError : Int := 1

def rcodeServerFailure : Int := 2

def rcodeRefused : Int := 5

/-- `SetReply` on a new message, and `CanonicalName`. -/
structure Package where
  setReply : Msg → Msg
  canonicalName : Bytes → Bytes

/-- A reply is a response without records that has the ID of its request and, where this has one,
its question. -/
structure Package.Documented (dns : Package) : Prop where
  response : ∀ request, (dns.setReply request).response = true
  id : ∀ request, (dns.setReply request).id = request.id
  question : ∀ request, request.question.length = 1 →
    (dns.setReply request).question = request.question
  answer : ∀ request, (dns.setReply request).answer = []

end Go.Dns
