/-!
Types of the PostgreSQL server: the built-in ones by name and number, and those a user defines.
-/

namespace Polystore.Postgres

/-- Built-in types that are not arrays. -/
inductive Scalar where
  | bool
  | bytea
  | name
  | int8
  | int2
  | int4
  | text
  | oid
  | json
  | point
  | float4
  | float8
  | unknown
  | bpchar
  | varchar
  | date
  | time
  | timestamp
  | timestamptz
  | timetz
  | numeric
  | uuid
  | jsonb
  /-- A type that values are never carried in. -/
  | other (name : String) (oid : Nat)
deriving DecidableEq, Repr

/-- Name, number and number of the array type. Types whose arrays have no number are paired with
zero. -/
def Scalar.table : List (Scalar × String × Nat × Nat) := [
  (.bool, "bool", 16, 1000), (.bytea, "bytea", 17, 1001), (.name, "name", 19, 1003),
  (.int8, "int8", 20, 1016), (.int2, "int2", 21, 1005), (.int4, "int4", 23, 1007),
  (.text, "text", 25, 1009), (.oid, "oid", 26, 1028), (.json, "json", 114, 199),
  (.point, "point", 600, 1017), (.float4, "float4", 700, 1021), (.float8, "float8", 701, 1022),
  (.unknown, "unknown", 705, 0), (.bpchar, "bpchar", 1042, 1014),
  (.varchar, "varchar", 1043, 1015), (.date, "date", 1082, 1182), (.time, "time", 1083, 1183),
  (.timestamp, "timestamp", 1114, 1115), (.timestamptz, "timestamptz", 1184, 1185),
  (.timetz, "timetz", 1266, 1270), (.numeric, "numeric", 1700, 1231),
  (.uuid, "uuid", 2950, 2951), (.jsonb, "jsonb", 3802, 3807)]

/-- The remaining built-in types, by name, number and number of the array type. -/
def otherTypes : List (String × Nat × Nat) := [
  ("char", 18, 1002), ("int2vector", 22, 1006), ("regproc", 24, 1008), ("tid", 27, 1010),
  ("xid", 28, 1011), ("cid", 29, 1012), ("oidvector", 30, 1013), ("xml", 142, 143),
  ("lseg", 601, 1018), ("path", 602, 1019), ("box", 603, 1020), ("polygon", 604, 1027),
  ("line", 628, 629), ("cidr", 650, 651), ("circle", 718, 719), ("macaddr8", 774, 775),
  ("money", 790, 791), ("macaddr", 829, 1040), ("inet", 869, 1041), ("aclitem", 1033, 1034),
  ("interval", 1186, 1187), ("bit", 1560, 1561), ("varbit", 1562, 1563),
  ("refcursor", 1790, 2201), ("regprocedure", 2202, 2207), ("regoper", 2203, 2208),
  ("regoperator", 2204, 2209), ("regclass", 2205, 2210), ("regtype", 2206, 2211),
  ("record", 2249, 2287), ("cstring", 2275, 1263), ("any", 2276, 0), ("anyarray", 2277, 0),
  ("void", 2278, 0), ("trigger", 2279, 0), ("txid_snapshot", 2970, 2949), ("pg_lsn", 3220, 3221),
  ("tsvector", 3614, 3643), ("tsquery", 3615, 3645), ("gtsvector", 3642, 3644),
  ("regconfig", 3734, 3735), ("regdictionary", 3769, 3770), ("int4range", 3904, 3905),
  ("numrange", 3906, 3907), ("tsrange", 3908, 3909), ("tstzrange", 3910, 3911),
  ("daterange", 3912, 3913), ("int8range", 3926, 3927), ("jsonpath", 4072, 4073),
  ("regnamespace", 4089, 4090), ("regrole", 4096, 4097), ("xid8", 5069, 271)]

def Scalar.typeName : Scalar → String
  | .other title _ => title
  | s => ((table.find? fun row => row.1 = s).map fun row => row.2.1).getD ""

def Scalar.number : Scalar → Nat
  | .other _ number => number
  | s => ((table.find? fun row => row.1 = s).map fun row => row.2.2.1).getD 0

def Scalar.arrayNumber : Scalar → Nat
  | .other title _ => ((otherTypes.find? fun row => row.1 == title).map fun row => row.2.2).getD 0
  | s => ((table.find? fun row => row.1 = s).map fun row => row.2.2.2).getD 0

def Scalar.ofName? (title : String) : Option Scalar :=
  match table.find? fun row => row.2.1 == title with
  | some row => some row.1
  | none => (otherTypes.find? fun row => row.1 == title).map fun row => .other row.1 row.2.1

/-- A type. Types that a user defines share one number here. -/
inductive PgType where
  | scalar (s : Scalar)
  | arrayOf (s : Scalar)
  | enumeration (name : String)
  | composite (name : String)
  | domain (name : String) (base : PgType)
  | array (name : String) (element : PgType)
deriving DecidableEq, Repr

namespace PgType

def name : PgType → String
  | .scalar s => s.typeName
  | .arrayOf s => "_" ++ s.typeName
  | .enumeration name => name
  | .composite name => name
  | .domain name _ => name
  | .array name _ => name

def number : PgType → Nat
  | .scalar s => s.number
  | .arrayOf s => s.arrayNumber
  | _ => 99999

/-- The built-in type of a name; arrays have their element's name after an underscore. Two types of
the catalogue are arrays under names of their own. -/
def builtin? (name : String) : Option PgType :=
  match name with
  | "int2vector" => some (.array name (.scalar .int2))
  | "oidvector" => some (.array name (.scalar .oid))
  | _ =>
    match name.toList with
    | '_' :: rest => (Scalar.ofName? (String.ofList rest)).map .arrayOf
    | _ => (Scalar.ofName? name).map .scalar

/-- The type of the elements, if a type is an array. -/
def element? : PgType → Option PgType
  | .arrayOf s => some (.scalar s)
  | .array _ element => some element
  | _ => none

def isText : PgType → Bool
  | .scalar .text | .scalar .varchar | .scalar .bpchar | .scalar .name | .scalar .unknown => true
  | .enumeration _ => true
  | _ => false

end PgType

end Polystore.Postgres
