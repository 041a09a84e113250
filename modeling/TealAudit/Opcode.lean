import TealAudit.Flow

/-!
# Opcodes

The operations of the assembler: how many immediate operands each takes and how it passes control
on. `Opcode.find?` looks one up by name; names are matched byte by byte.
-/

namespace TealAudit

/-- **How many operands an operation takes**: at least `least`, and at most `most` if that is given. -/
structure Arity where
  least : Nat
  most : Option Nat
deriving DecidableEq, Repr

namespace Arity

/-- Exactly `n` operands. -/
def exactly (n : Nat) : Arity := ⟨n, some n⟩

/-- Whether `n` operands are within the bounds. -/
def accepts (a : Arity) (n : Nat) : Bool := a.least ≤ n && a.most.all fun m => n ≤ m

/-- The bounds in words. -/
def describe (a : Arity) : Text :=
  match a.most with
  | none => "at least " ++ Text.ofNat a.least
  | some m => if a.least = m then Text.ofNat m else Text.ofNat a.least ++ " to " ++ Text.ofNat m

end Arity

/-- **An opcode**: its name, its flow and how many operands it takes. -/
structure Opcode where
  name : Text
  flow : Flow
  arity : Arity
deriving DecidableEq, Repr

namespace Opcode

/-- Opcodes that differ in their names only. -/
def group (flow : Flow) (arity : Arity) (names : List String) : List Opcode :=
  names.map fun name => ⟨Text.ofString name, flow, arity⟩

/-- The operations that transfer control. -/
def transferring : List Opcode :=
  group .branch (.exactly 1) ["b"] ++
  group .conditional (.exactly 1) ["bz", "bnz"] ++
  group .switch ⟨0, none⟩ ["switch", "match"] ++
  group .call (.exactly 1) ["callsub"] ++
  group .leave (.exactly 0) ["retsub"] ++
  group .terminal (.exactly 0) ["return", "err"]

/-- The names of the plain operations without operands. -/
def bareNames : List String :=
  ["sha256", "keccak256", "sha512_256", "sha3_256", "ed25519verify", "ed25519verify_bare",
    "+", "-", "/", "*", "<", ">", "<=", ">=", "&&", "||", "==", "!=", "!",
    "len", "itob", "btoi", "%", "|", "&", "^", "~",
    "mulw", "addw", "divw", "divmodw", "exp", "expw", "shl", "shr", "sqrt", "bitlen",
    "intc_0", "intc_1", "intc_2", "intc_3",
    "bytec_0", "bytec_1", "bytec_2", "bytec_3",
    "arg_0", "arg_1", "arg_2", "arg_3", "args",
    "gaids", "loads", "stores", "gloadss",
    "assert", "pop", "dup", "dup2", "swap", "select",
    "concat", "substring3", "getbit", "setbit", "getbyte", "setbyte",
    "extract3", "extract_uint16", "extract_uint32", "extract_uint64", "replace3",
    "balance", "app_opted_in", "app_local_get", "app_local_get_ex",
    "app_global_get", "app_global_get_ex", "app_local_put", "app_global_put",
    "app_local_del", "app_global_del", "min_balance",
    "b+", "b-", "b/", "b*", "b<", "b>", "b<=", "b>=", "b==", "b!=", "b%",
    "b|", "b&", "b^", "b~", "bsqrt", "bzero",
    "log", "itxn_begin", "itxn_next", "itxn_submit",
    "box_create", "box_extract", "box_replace", "box_del", "box_len",
    "box_get", "box_put", "box_splice", "box_resize",
    "falcon_verify", "sumhash512", "online_stake"]

/-- The names of the plain operations with one operand. -/
def unaryNames : List String :=
  ["int", "pushint", "addr", "method", "intc", "bytec", "arg",
    "global", "load", "store", "gloads", "gaid",
    "bury", "popn", "dupn", "dig", "cover", "uncover", "replace2",
    "base64_decode", "json_ref",
    "asset_holding_get", "asset_params_get", "app_params_get",
    "acct_params_get", "voter_params_get",
    "frame_dig", "frame_bury",
    "itxn_field", "itxn", "itxnas", "txnas", "gtxnsas",
    "ecdsa_verify", "ecdsa_pk_decompress", "ecdsa_pk_recover",
    "vrf_verify", "block", "mimc",
    "ec_add", "ec_scalar_mul", "ec_pairing_check", "ec_multi_scalar_mul",
    "ec_subgroup_check", "ec_map_to"]

/-- The names of the plain operations with two operands. -/
def binaryNames : List String :=
  ["substring", "extract", "gload", "proto",
    "txna", "itxna", "gitxn", "gitxnas", "gtxnas", "gtxnsa"]

/-- The operations that hand control to the next instruction. -/
def plain : List Opcode :=
  group .plain (.exactly 0) bareNames ++
  group .plain (.exactly 1) unaryNames ++
  group .plain (.exactly 2) binaryNames ++
  group .plain (.exactly 3) ["gtxna", "gitxna"] ++
  group .plain ⟨1, some 2⟩ ["byte", "pushbytes", "txn", "gtxns"] ++
  group .plain ⟨2, some 3⟩ ["gtxn"] ++
  group .plain ⟨0, none⟩ ["intcblock", "bytecblock", "pushints", "pushbytess"]

/-- **Every opcode.** -/
def table : List Opcode := transferring ++ plain

/-- The opcode of a name. -/
def find? (name : Text) : Option Opcode := table.find? fun op => op.name = name

end Opcode

end TealAudit
