/- Why a chart definition is rejected. -/
namespace Statechart

inductive Defect where
  | noStates
  | historyMisplaced (state : String)
  | childrenNotAllowed (state : String)
  | finalWithTransitions (state : String)
  | historyWithManyTransitions (state : String)
  | initialMisplaced (state : String)
  | onlyHistoryChildren (state : String)
  | historyDefaultGuarded (state : String)
  | historyWithoutDefault (state : String)
  | invokeSourceTwice
  | invokeIdTwice
  | exprAndValue
  | paramWithoutValue (name : String)
  | cancelWithoutOneId
  | unknownAction (name : String)
  | sendConflict (property : String)
  | sendWithoutEvent
  | duplicateState (state : String)
  | targetNotFound (target : String)
  | historyTargetOutside (state target : String)
  | emptyInitial (state : String)
  | initialTargetOutside (target state : String)
  | targetTwice (transition : Nat)
  | targetAndAncestor (transition : Nat) (target ancestor : String)
  | invalidDelay (json : String)
  | other (reason : String)
deriving DecidableEq, Repr

def Defect.reason : Defect → String
  | .noStates => "chart has no states"
  | .historyMisplaced s => "state '" ++ s ++ "' sets 'history' but is not a history state"
  | .childrenNotAllowed s => "state '" ++ s ++ "' cannot have child states"
  | .finalWithTransitions s => "final state '" ++ s ++ "' cannot have transitions"
  | .historyWithManyTransitions s =>
    "history state '" ++ s ++ "' has more than one default transition"
  | .initialMisplaced s => "'initial' is only allowed on compound states ('" ++ s ++ "')"
  | .onlyHistoryChildren s => "state '" ++ s ++ "' has only history children"
  | .historyDefaultGuarded s =>
    "history state '" ++ s ++ "' default transition cannot have event or cond"
  | .historyWithoutDefault s => "history state '" ++ s ++ "' needs a default transition"
  | .invokeSourceTwice => "invoke has both 'src' and 'srcexpr'"
  | .invokeIdTwice => "invoke has both 'id' and 'idlocation'"
  | .exprAndValue => "both 'expr' and 'value' given for one value"
  | .paramWithoutValue n => "param '" ++ n ++ "' has no value"
  | .cancelWithoutOneId => "cancel needs exactly one of 'sendid' and 'sendidexpr'"
  | .unknownAction n => "unknown custom action '" ++ n ++ "'"
  | .sendConflict a => "send has conflicting '" ++ a ++ "' attributes"
  | .sendWithoutEvent => "send needs an event or content"
  | .duplicateState s => "duplicate state id '" ++ s ++ "'"
  | .targetNotFound t => "transition target '" ++ t ++ "' not found"
  | .historyTargetOutside s t =>
    "history state '" ++ s ++ "' default target '" ++ t ++ "' is outside its parent"
  | .emptyInitial s => "state '" ++ s ++ "' has an empty initial"
  | .initialTargetOutside t s => "initial target '" ++ t ++ "' is not a descendant of '" ++ s ++ "'"
  | .targetTwice n => "transition #" ++ toString n ++ " lists a target twice"
  | .targetAndAncestor n t a =>
    "transition #" ++ toString n ++ " targets both '" ++ t ++ "' and its ancestor '" ++ a ++ "'"
  | .invalidDelay j => "invalid delay " ++ j
  | .other reason => reason

end Statechart
