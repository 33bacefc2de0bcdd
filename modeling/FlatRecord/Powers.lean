/-! Powers of numbers are the core library's in every module, also where algebra is imported, which brings
powers of its own. -/

attribute [instance (2000), default_instance 20000] instPowNat
