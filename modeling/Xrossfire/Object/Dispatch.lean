import Xrossfire.Object.Heap

/-! The messages of objects: the procedures of the three classes, and the functions of `netobj.c` that call them. -/
namespace Xrossfire.Object

def XF_INTERFACE_UNKNOWN : Nat := 0
def XF_INTERFACE_STREAM : Nat := 1
def XF_INTERFACE_SOCKET : Nat := 2
def XF_INTERFACE_SERVER_SOCKET : Nat := 3

def XF_MESSAGE (interfaceType messageId : Nat) : Nat := interfaceType <<< 8 ||| messageId

def XF_MESSAGE_OBJECT_QUERY_INTERFACE : Nat := XF_MESSAGE XF_INTERFACE_UNKNOWN 1
def XF_MESSAGE_OBJECT_GET_CLASS_ID : Nat := XF_MESSAGE XF_INTERFACE_UNKNOWN 2
def XF_MESSAGE_OBJECT_DESTROY : Nat := XF_MESSAGE XF_INTERFACE_UNKNOWN 3
def XF_MESSAGE_SOCKET_CLOSE : Nat := XF_MESSAGE XF_INTERFACE_SOCKET 1
def XF_MESSAGE_SOCKET_RECEIVE : Nat := XF_MESSAGE XF_INTERFACE_SOCKET 2
def XF_MESSAGE_SOCKET_SEND : Nat := XF_MESSAGE XF_INTERFACE_SOCKET 3
def XF_MESSAGE_SERVER_SOCKET_ACCEPT : Nat := XF_MESSAGE XF_INTERFACE_SERVER_SOCKET 1

inductive Reaction
  | provides (answer : Bool)
  | classId (id : String)
  | destroy
  | close
  | receive
  | send
  | accept
deriving DecidableEq

structure Args where
  interfaceType : Nat

/-- `xf_object_default_procedure`. -/
def defaultProcedure (_ : Nat) (_ : Args) : Int × Option Reaction := (1,none)

def socketProcedure (classId : String) (messageId : Nat) (args : Args) : Int × Option Reaction :=
  if messageId = XF_MESSAGE_OBJECT_QUERY_INTERFACE then
    (0,some (.provides (args.interfaceType = XF_INTERFACE_UNKNOWN ∨ args.interfaceType = XF_INTERFACE_SOCKET)))
  else if messageId = XF_MESSAGE_OBJECT_GET_CLASS_ID then (0,some (.classId classId))
  else if messageId = XF_MESSAGE_OBJECT_DESTROY then (0,some .destroy)
  else if messageId = XF_MESSAGE_SOCKET_CLOSE then (0,some .close)
  else if messageId = XF_MESSAGE_SOCKET_RECEIVE then (0,some .receive)
  else if messageId = XF_MESSAGE_SOCKET_SEND then (0,some .send)
  else defaultProcedure messageId args

def tcpSocketProcedure : Nat → Args → Int × Option Reaction := socketProcedure "xrossfire.net.TcpSocket"

def sslSocketProcedure : Nat → Args → Int × Option Reaction := socketProcedure "xrossfire.net.SSLSocket"

def tcpServerSocketProcedure (messageId : Nat) (args : Args) : Int × Option Reaction :=
  if messageId = XF_MESSAGE_OBJECT_QUERY_INTERFACE then
    (0,some (.provides (args.interfaceType = XF_INTERFACE_UNKNOWN ∨
      args.interfaceType = XF_INTERFACE_SERVER_SOCKET)))
  else if messageId = XF_MESSAGE_OBJECT_GET_CLASS_ID then (0,some (.classId "xrossfire.net.TcpServerSocket"))
  else if messageId = XF_MESSAGE_OBJECT_DESTROY then (0,some .destroy)
  else if messageId = XF_MESSAGE_SERVER_SOCKET_ACCEPT then (0,some .accept)
  else defaultProcedure messageId args

namespace Body

/-- `xf_object_call`. -/
def call : Body → Nat → Args → Int × Option Reaction
  | tcpSocket => tcpSocketProcedure
  | sslSocket _ => sslSocketProcedure
  | serverSocket _ => tcpServerSocketProcedure

/-- `xf_object_query_interface`. -/
def queryInterface (b : Body) (interfaceType : Nat) : Int × Option Reaction :=
  b.call XF_MESSAGE_OBJECT_QUERY_INTERFACE ⟨interfaceType⟩

/-- `xf_object_get_class_id`. -/
def getClassId (b : Body) : Int × Option Reaction := b.call XF_MESSAGE_OBJECT_GET_CLASS_ID ⟨0⟩

/-- The functions of `netobj.c`, which drop the return value; without a reaction nobody notifies their async. -/
def serverSocketAccept (b : Body) : Option Reaction := (b.call XF_MESSAGE_SERVER_SOCKET_ACCEPT ⟨0⟩).2
def socketClose (b : Body) : Option Reaction := (b.call XF_MESSAGE_SOCKET_CLOSE ⟨0⟩).2
def socketReceive (b : Body) : Option Reaction := (b.call XF_MESSAGE_SOCKET_RECEIVE ⟨0⟩).2
def socketSend (b : Body) : Option Reaction := (b.call XF_MESSAGE_SOCKET_SEND ⟨0⟩).2

end Body

def messages (interfaceType : Nat) : List Nat :=
  if interfaceType = XF_INTERFACE_UNKNOWN then [1,2,3]
  else if interfaceType = XF_INTERFACE_SOCKET then [1,2,3]
  else if interfaceType = XF_INTERFACE_SERVER_SOCKET then [1]
  else []

section
variable {i j m n : Nat} (b : Body) (args : Args)

theorem message_eq (low : m < 256) : XF_MESSAGE i m = i * 256 + m := by
  rw [XF_MESSAGE,← Nat.shiftLeft_add_eq_or_of_lt (i := 8) low,Nat.shiftLeft_eq]

/-- No two messages have the same code. -/
theorem message_injective (low : m < 256) (low' : n < 256) : XF_MESSAGE i m = XF_MESSAGE j n ↔ i = j ∧ m = n := by
  rw [message_eq low,message_eq low']
  omega

def Body.interface : Body → Nat
  | .tcpSocket | .sslSocket _ => XF_INTERFACE_SOCKET
  | .serverSocket _ => XF_INTERFACE_SERVER_SOCKET

theorem queryInterface_eq :
    b.queryInterface i = (0,some (.provides (decide (i = XF_INTERFACE_UNKNOWN ∨ i = b.interface)))) := by
  cases b <;> rfl

/-- An object answers the messages of the interfaces that it says it provides, and no others. -/
theorem call_answers (low : m < 256) :
    (b.call (XF_MESSAGE i m) args).1 = 0 ↔ b.queryInterface i = (0,some (.provides true)) ∧ m ∈ messages i := by
  have code (j n : Nat) (low' : n < 256) : XF_MESSAGE i m = XF_MESSAGE j n ↔ i = j ∧ m = n :=
    message_injective low low'
  rw [queryInterface_eq]
  cases b with
  | tcpSocket | sslSocket _ =>
    simp only [Body.call,tcpSocketProcedure,sslSocketProcedure,socketProcedure,XF_MESSAGE_OBJECT_QUERY_INTERFACE,
      XF_MESSAGE_OBJECT_GET_CLASS_ID,XF_MESSAGE_OBJECT_DESTROY,XF_MESSAGE_SOCKET_CLOSE,XF_MESSAGE_SOCKET_RECEIVE,
      XF_MESSAGE_SOCKET_SEND,code _ 1 (by decide),code _ 2 (by decide),code _ 3 (by decide),defaultProcedure,
      Body.interface,messages,XF_INTERFACE_UNKNOWN,XF_INTERFACE_SOCKET,XF_INTERFACE_SERVER_SOCKET]
    grind
  | serverSocket _ =>
    simp only [Body.call,tcpServerSocketProcedure,XF_MESSAGE_OBJECT_QUERY_INTERFACE,XF_MESSAGE_OBJECT_GET_CLASS_ID,
      XF_MESSAGE_OBJECT_DESTROY,XF_MESSAGE_SERVER_SOCKET_ACCEPT,code _ 1 (by decide),code _ 2 (by decide),
      code _ 3 (by decide),defaultProcedure,Body.interface,messages,XF_INTERFACE_UNKNOWN,XF_INTERFACE_SOCKET,
      XF_INTERFACE_SERVER_SOCKET]
    grind

/-- A function of `netobj.c` reaches the operation of its name if the object provides the interface; on any other
object it returns as well, but nobody will notify the async. -/
theorem netobj_reaches :
    (b.socketClose = if b.interface = XF_INTERFACE_SOCKET then some .close else none) ∧
    (b.socketReceive = if b.interface = XF_INTERFACE_SOCKET then some .receive else none) ∧
    (b.socketSend = if b.interface = XF_INTERFACE_SOCKET then some .send else none) ∧
    (b.serverSocketAccept = if b.interface = XF_INTERFACE_SERVER_SOCKET then some .accept else none) := by
  cases b <;> exact ⟨rfl,rfl,rfl,rfl⟩

end

end Xrossfire.Object
