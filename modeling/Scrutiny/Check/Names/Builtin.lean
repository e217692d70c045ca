/-
Names that need no binding, and names that look like them.
-/

namespace Scrutiny

/-- Names every module can read without binding them. -/
def builtinNames : List String := [
  "True", "False", "None", "Ellipsis", "NotImplemented", "__debug__",
  "__name__", "__file__", "__doc__", "__package__", "__loader__", "__spec__",
  "__annotations__", "__cached__", "__builtins__", "__import__",
  "self", "cls",
  "abs", "aiter", "all", "anext", "any", "ascii", "bin", "bool", "breakpoint",
  "bytearray", "bytes", "callable", "chr", "classmethod", "compile", "complex",
  "copyright", "credits", "delattr", "dict", "dir", "divmod", "enumerate", "eval",
  "exec", "exit", "filter", "float", "format", "frozenset", "getattr", "globals",
  "hasattr", "hash", "help", "hex", "id", "input", "int", "isinstance",
  "issubclass", "iter", "len", "license", "list", "locals", "map", "max",
  "memoryview", "min", "next", "object", "oct", "open", "ord", "pow", "print",
  "property", "quit", "range", "repr", "reversed", "round", "set", "setattr",
  "slice", "sorted", "staticmethod", "str", "sum", "super", "tuple", "type",
  "vars", "zip",
  "BaseException", "BaseExceptionGroup", "Exception", "ExceptionGroup",
  "ArithmeticError", "AssertionError", "AttributeError", "BlockingIOError",
  "BrokenPipeError", "BufferError", "ChildProcessError", "ConnectionError",
  "ConnectionAbortedError", "ConnectionRefusedError", "ConnectionResetError",
  "EOFError", "EnvironmentError", "FileExistsError", "FileNotFoundError",
  "FloatingPointError", "GeneratorExit", "IOError", "ImportError",
  "IndentationError", "IndexError", "InterruptedError", "IsADirectoryError",
  "KeyError", "KeyboardInterrupt", "LookupError", "MemoryError",
  "ModuleNotFoundError", "NameError", "NotADirectoryError", "NotImplementedError",
  "OSError", "OverflowError", "PermissionError", "ProcessLookupError",
  "RecursionError", "ReferenceError", "RuntimeError", "StopAsyncIteration",
  "StopIteration", "SyntaxError", "SystemError", "SystemExit", "TabError",
  "TimeoutError", "TypeError", "UnboundLocalError", "UnicodeDecodeError",
  "UnicodeEncodeError", "UnicodeError", "UnicodeTranslateError", "ValueError",
  "ZeroDivisionError",
  "Warning", "BytesWarning", "DeprecationWarning", "EncodingWarning",
  "FutureWarning", "ImportWarning", "PendingDeprecationWarning",
  "ResourceWarning", "RuntimeWarning", "SyntaxWarning", "UnicodeWarning",
  "UserWarning",
  "Union", "Optional", "List", "Dict", "Tuple", "Set", "FrozenSet", "Type",
  "Callable", "Any", "TypeVar", "Generic", "Protocol", "Literal", "Final",
  "TypedDict", "NotRequired", "Required", "Annotated", "TypeAlias", "ParamSpec",
  "TypeVarTuple", "Unpack", "Self", "Never", "assert_type", "assert_never",
  "reveal_type"]

/-- Builtins that are often misspelled. -/
def typoCandidates : List String :=
  ["print", "len", "range", "str", "int", "float", "list", "dict", "open", "input"]

/-- Whether two words are equally long and differ in at most one character. -/
def isSimilar (a b : List Char) : Bool :=
  a.length == b.length && (a.zip b).countP (fun (x, y) => x != y) ≤ 1

/-- The builtins that a name looks like a misspelling of. -/
def typosOf (name : String) : List String :=
  typoCandidates.filter fun candidate => isSimilar name.toList candidate.toList

end Scrutiny
