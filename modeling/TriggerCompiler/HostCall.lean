import TriggerCompiler.Value

/-!
Signatures of calls into the host. A signature names the owner of the called method, the method, its
parameter types and its result, in the form `Owner.__method__Param1_Param2__Result`; a method
without parameters has no parameter section.
-/

namespace TriggerCompiler.HostCall

/-- The signature of a method of a host type. -/
def signature (owner method : String) (parameters : List String) (result : String) : String :=
  match parameters with
  | [] => owner ++ ".__" ++ method ++ "__" ++ result
  | ps => owner ++ ".__" ++ method ++ "__" ++ "_".intercalate ps ++ "__" ++ result

/-- The result of a call that gives none. -/
def void : String := "SystemVoid"

/-- The owner of the calls that send events. -/
def eventReceiver : String := "VRCUdonCommonInterfacesIUdonEventReceiver"

/-- The owner of the calls about ownership. -/
def networking : String := "VRCSDKBaseNetworking"

/-- The type of a network event's target. -/
def networkEventTarget : ValueType := .reference "VRCUdonCommonInterfacesNetworkEventTarget"

/-- The type of a delayed event's timing. -/
def eventTiming : ValueType := .reference "VRCUdonCommonEnumsEventTiming"

/-- An operator on two operands of one type. -/
def binaryOperator (type : ValueType) (op : String) (result : ValueType) : String :=
  signature type.machineName ("op_" ++ op) [type.machineName, type.machineName] result.machineName

/-- Whether two values of a value type differ. -/
def inequality (type : ValueType) : String := binaryOperator type "Inequality" .boolean

/-- Whether two references are equal. -/
def objectEquals : String :=
  signature "SystemObject" "Equals" ["SystemObject", "SystemObject"] "SystemBoolean"

/-- The negation of a truth value. -/
def booleanNegation : String :=
  signature "SystemBoolean" "op_UnaryNegation" ["SystemBoolean"] "SystemBoolean"

/-- An operator on integers. -/
def intOperator (op : String) : String := binaryOperator .int32 op .int32

/-- A comparison of integers. -/
def intComparison (op : String) : String := binaryOperator .int32 op .boolean

/-- Runs an exported method at once. -/
def sendCustomEvent : String := signature eventReceiver "SendCustomEvent" ["SystemString"] void

/-- Runs an exported method for a network target. -/
def sendCustomNetworkEvent : String :=
  signature eventReceiver "SendCustomNetworkEvent"
    [networkEventTarget.machineName, "SystemString"] void

/-- Runs an exported method after a delay. -/
def sendCustomEventDelayed : String :=
  signature eventReceiver "SendCustomEventDelayedSeconds"
    ["SystemString", "SystemSingle", eventTiming.machineName] void

/-- Asks for the synced variables to be sent. -/
def requestSerialization : String := signature eventReceiver "RequestSerialization" [] void

/-- Whether the local player owns an object. -/
def isOwner : String := signature networking "IsOwner" ["UnityEngineGameObject"] "SystemBoolean"

/-- Whether the local player is the master of the instance. -/
def isMaster : String := signature networking "get_IsMaster" [] "SystemBoolean"

/-- Writes to the log. -/
def debugLog : String := signature "UnityEngineDebug" "Log" ["SystemObject"] void

/-- Switches an object on or off. -/
def setActive : String := signature "UnityEngineGameObject" "SetActive" ["SystemBoolean"] void

end TriggerCompiler.HostCall
