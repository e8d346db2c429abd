import Refsite.Json.Basic
import Refsite.Schema.Field
namespace Refsite.Tree

open Schema
open Schema.Checked (fail)

def checkType : Json → Checked Unit := either "str" (only text) "list[str]" (only texts)

def checkFlag : Json → Checked Unit := either "bool" (only flag) "str" (only text)

def checkParameter : Json → Checked Unit :=
  record fun es =>
    field es "name" () (only text) *>
    field es "type" () checkType *>
    field es "description" () (only text) *>
    field es "optional" () checkFlag *>
    field es "nullable" () checkFlag

def checkReturn : Json → Checked Unit :=
  record fun es => field es "type" () checkType *> field es "description" () (only text)

def checkParameters (es : Json.Entries) : Checked Unit :=
  field es "parameters" () (only (list checkParameter))

def checkExamples (es : Json.Entries) : Checked Unit :=
  field es "examples" () (only (list free))

/-- The fields of every node but a constructor. -/
def checkHeading (es : Json.Entries) : Checked Unit :=
  required es "name" (only text) *>
  field es "access" () (only text) *>
  field es "virtual" () (only flag) *>
  field es "description" () (only text)

def checkCall : Json → Checked Unit :=
  record fun es =>
    checkHeading es *> checkParameters es *> checkExamples es *>
    field es "returns" () (only (orNull checkReturn))

def checkProperty : Json → Checked Unit :=
  record fun es => checkHeading es *> field es "type" () checkType

def checkConstructor : Json → Checked Unit :=
  record fun es =>
    required es "name" (only text) *>
    field es "description" () (only text) *>
    checkParameters es *> checkExamples es

/-- What a container is. -/
inductive Role where
  | root
  | nameSpace
  | classType
  deriving DecidableEq, Repr

/-- The fields of a container beside the lists of its nodes. -/
def Role.check (es : Json.Entries) : Role → Checked Unit
  | root => .ok ()
  | nameSpace => checkHeading es
  | classType =>
    checkHeading es *>
    field es "extends" () (only texts) *>
    field es "fires" () (only texts) *>
    required es "constructor" checkConstructor

def checkAs (role : Role) : Json → Checked Unit
  | .object es =>
    let nodes : Checked (List Unit) :=
      parts es "namespaces" (fun x _ => checkAs .nameSpace x) *>
      parts es "mixins" (fun x _ => checkAs .nameSpace x) *>
      parts es "classes" (fun x _ => checkAs .classType x)
    role.check es *> nodes *>
    field es "functions" () (only (list checkCall)) *>
    field es "properties" () (only (list checkProperty)) *>
    field es "events" () (only (list checkCall))
  | _ => fail .notRecord
termination_by x => sizeOf x
decreasing_by all_goals assumption

def check : Json → Checked Unit := checkAs .root

end Refsite.Tree
