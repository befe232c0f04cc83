/-!
# Helpers that are written into the output

Programs in the output language may need helpers of their own: the unsigned shift, and locks for
objects.  Their sources are written into the output as they stand here, line by line.
-/

namespace Transcriber.Helper

def shiftLines : List String := [
  "def bsr(value, bits):",
  "    \"\"\" bsr(value, bits) -> value shifted right by bits",
  "",
  "    This function is here because an expression in the original java",
  "    source contained the token '>>>' and/or '>>>=' (bit shift right",
  "    and/or bit shift right assign).  In place of these, the python",
  "    source code below contains calls to this function.",
  "",
  "    Copyright 2003 Jeffrey Clement.  See pyrijnadel.py for license and",
  "    original source.",
  "    \"\"\"",
  "    minint = -2147483648",
  "    if bits == 0:",
  "        return value",
  "    elif bits == 31:",
  "        if value & minint:",
  "            return 1",
  "        else:",
  "            return 0",
  "    elif bits < 0 or bits > 31:",
  "        raise ValueError('bad shift count')",
  "    tmp = (value & 0x7FFFFFFE) // 2**bits",
  "    if (value & minint):",
  "        return (tmp | (0x40000000 // 2**(bits-1)))",
  "    else:",
  "        return tmp",
  ""]

def lockLines : List String := [
  "from functools import wraps",
  "from threading import RLock",
  "",
  "def lock_for_object(obj, locks=\x7b\x7d):",
  "    return locks.setdefault(id(obj), RLock())",
  "",
  "def synchronized(call):",
  "    assert call.__code__.co_varnames[0] in ['self', 'cls']",
  "    @wraps(call)",
  "    def inner(*args, **kwds):",
  "        with lock_for_object(args[0]):",
  "            return call(*args, **kwds)",
  "    return inner",
  ""]

def sourceText (lines : List String) : String := "\n".intercalate lines

end Transcriber.Helper
